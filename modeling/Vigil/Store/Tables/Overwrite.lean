import Vigil.Store.Tables

/-!
# Changing cells from outside

Rows can be changed behind the store's back. A column of text keeps a number as its digits, a column
of numbers keeps a text as `Cell.ofText` says.
-/

namespace Vigil

/-- The text that a value becomes in a column of text. -/
def Cell.columnText : Cell → String
  | number n => toString n
  | text content => content

/-- The cell that a value becomes in a column of numbers. -/
def Cell.columnNumber : Cell → Cell
  | number n => number n
  | text content => ofText content

def AlarmRow.overwrite (r : AlarmRow) (column : String) (value : Cell) : AlarmRow :=
  let text := value.columnText
  let number := value.columnNumber
  match column with
  | "id" => { r with id := text }
  | "owner" => { r with owner := text }
  | "name" => { r with name := text }
  | "info" => { r with info := text }
  | "message" => { r with message := text }
  | "group_id" => { r with group := text }
  | "enabled" => { r with enabled := number }
  | "fired" => { r with fired := number }
  | "filter" => { r with rule := text }
  | "run_interval_ms" => { r with runInterval := number }
  | "last_run" => { r with lastRun := number }
  | "created_at" => { r with createdAt := number }
  | "updated_at" => { r with updatedAt := number }
  | _ => r

def ChannelRow.overwrite (r : ChannelRow) (column : String) (value : Cell) : ChannelRow :=
  let text := value.columnText
  match column with
  | "id" => { r with id := text }
  | "owner" => { r with owner := text }
  | "name" => { r with name := text }
  | "config" => { r with service := text }
  | _ => r

def OutputRow.overwrite (r : OutputRow) (column : String) (value : Cell) : OutputRow :=
  let text := value.columnText
  let number := value.columnNumber
  match column with
  | "id" => { r with id := text }
  | "alarm_id" => { r with alarmId := text }
  | "channel_id" => { r with channelId := text }
  | "name" => { r with name := text }
  | "fire_template" => { r with templates := { r.templates with fire := text } }
  | "clear_template" => { r with templates := { r.templates with clear := text } }
  | "error_template" => { r with templates := { r.templates with error := text } }
  | "enabled" => { r with enabled := number }
  | "on_fire" => { r with subscribed := { r.subscribed with fire := number } }
  | "on_clear" => { r with subscribed := { r.subscribed with clear := number } }
  | "on_error" => { r with subscribed := { r.subscribed with error := number } }
  | "last_pushed" => { r with lastPushed := some number }
  | _ => r

/-- Change one column of the row with an identifier. -/
def Tables.overwrite (t : Tables) (table : String) (id : Uuid) (column : String) (value : Cell) :
    Tables :=
  match table with
  | "alarms" =>
    { t with alarms := t.alarms.map fun r =>
        if r.id = id.text then r.overwrite column value else r }
  | "output_channels" =>
    { t with channels := t.channels.map fun r =>
        if r.id = id.text then r.overwrite column value else r }
  | "outputs" =>
    { t with outputs := t.outputs.map fun r =>
        if r.id = id.text then r.overwrite column value else r }
  | _ => t

end Vigil

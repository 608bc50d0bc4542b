import Vigil.Alarm.Document
import Vigil.Store.Tables

/-!
# Tables as documents

The JSON form in which tables outlast the program: an object with a list of rows for each table, each
row an object of its cells. Measured values are written by their bits, so that none is rounded.
-/

namespace Vigil

open Json (Slot)

namespace Cell

def toJson : Cell → Json
  | number value => .int value
  | text content => .string content

def ofJson? : Json → Option Cell
  | .int value => some (number value)
  | .string content => some (text content)
  | _ => none

end Cell

namespace PerEvent

def toJson {α : Type} (write : α → Json) (p : PerEvent α) : Json :=
  .array [write p.fire, write p.clear, write p.error]

def ofJson? {α : Type} (read : Json → Option α) (j : Json) : Option (PerEvent α) := do
  match ← j.list? read with
  | [fire, clear, error] => return ⟨fire, clear, error⟩
  | _ => none

end PerEvent

namespace AlarmRow

def toJson (r : AlarmRow) : Json :=
  .object [
    ("id", .string r.id), ("owner", .string r.owner), ("name", .string r.name),
    ("info", .string r.info), ("message", .string r.message), ("group", .string r.group),
    ("enabled", r.enabled.toJson), ("fired", r.fired.toJson), ("filter", .string r.rule),
    ("run_interval", r.runInterval.toJson), ("last_run", r.lastRun.toJson),
    ("created_at", r.createdAt.toJson), ("updated_at", r.updatedAt.toJson)]

def ofJson? (j : Json) : Option AlarmRow := do
  match ← j.slots? ["id", "owner", "name", "info", "message", "group", "enabled", "fired", "filter",
    "run_interval", "last_run", "created_at", "updated_at"] with
  | [id, owner, name, info, message, group, enabled, fired, rule, runInterval, lastRun, createdAt,
      updatedAt] =>
    return {
      id := ← id.required Json.string?
      owner := ← owner.required Json.string?
      name := ← name.required Json.string?
      info := ← info.required Json.string?
      message := ← message.required Json.string?
      group := ← group.required Json.string?
      enabled := ← enabled.required Cell.ofJson?
      fired := ← fired.required Cell.ofJson?
      rule := ← rule.required Json.string?
      runInterval := ← runInterval.required Cell.ofJson?
      lastRun := ← lastRun.required Cell.ofJson?
      createdAt := ← createdAt.required Cell.ofJson?
      updatedAt := ← updatedAt.required Cell.ofJson? }
  | _ => none

end AlarmRow

namespace EntryRow

def toJson (r : EntryRow) : Json :=
  .object [
    ("id", .string r.id), ("alarm_id", .string r.alarmId), ("value", .string r.value),
    ("cleared", .bool r.cleared), ("fired_at", .int r.firedAt),
    ("cleared_at", Json.ofOption .int r.clearedAt)]

def ofJson? (j : Json) : Option EntryRow := do
  match ← j.slots? ["id", "alarm_id", "value", "cleared", "fired_at", "cleared_at"] with
  | [id, alarmId, value, cleared, firedAt, clearedAt] =>
    return {
      id := ← id.required Json.string?
      alarmId := ← alarmId.required Json.string?
      value := ← value.required Json.string?
      cleared := ← cleared.required Json.bool?
      firedAt := ← firedAt.required Json.int?
      clearedAt := ← clearedAt.nullable Json.int? }
  | _ => none

end EntryRow

namespace ChannelRow

def toJson (r : ChannelRow) : Json :=
  .object [
    ("id", .string r.id), ("owner", .string r.owner), ("name", .string r.name),
    ("config", .string r.service)]

def ofJson? (j : Json) : Option ChannelRow := do
  match ← j.slots? ["id", "owner", "name", "config"] with
  | [id, owner, name, service] =>
    return {
      id := ← id.required Json.string?
      owner := ← owner.required Json.string?
      name := ← name.required Json.string?
      service := ← service.required Json.string? }
  | _ => none

end ChannelRow

namespace OutputRow

def toJson (r : OutputRow) : Json :=
  .object [
    ("id", .string r.id), ("alarm_id", .string r.alarmId), ("channel_id", .string r.channelId),
    ("name", .string r.name), ("templates", r.templates.toJson .string),
    ("enabled", r.enabled.toJson), ("on", r.subscribed.toJson Cell.toJson),
    ("last_pushed", Json.ofOption Cell.toJson r.lastPushed)]

def ofJson? (j : Json) : Option OutputRow := do
  match ← j.slots? ["id", "alarm_id", "channel_id", "name", "templates", "enabled", "on",
    "last_pushed"] with
  | [id, alarmId, channelId, name, templates, enabled, subscribed, lastPushed] =>
    return {
      id := ← id.required Json.string?
      alarmId := ← alarmId.required Json.string?
      channelId := ← channelId.required Json.string?
      name := ← name.required Json.string?
      templates := ← templates.required (PerEvent.ofJson? Json.string?)
      enabled := ← enabled.required Cell.ofJson?
      subscribed := ← subscribed.required (PerEvent.ofJson? Cell.ofJson?)
      lastPushed := ← lastPushed.nullable Cell.ofJson? }
  | _ => none

end OutputRow

namespace PushRow

def toJson (r : PushRow) : Json :=
  .object [
    ("output_id", .string r.outputId), ("success", .bool r.success),
    ("message", .string r.message), ("timestamp", .int r.timestamp)]

def ofJson? (j : Json) : Option PushRow := do
  match ← j.slots? ["output_id", "success", "message", "timestamp"] with
  | [outputId, success, message, timestamp] =>
    return {
      outputId := ← outputId.required Json.string?
      success := ← success.required Json.bool?
      message := ← message.required Json.string?
      timestamp := ← timestamp.required Json.int? }
  | _ => none

end PushRow

namespace ValueRow

def toJson (r : ValueRow) : Json :=
  .object [
    ("device", .string r.device), ("groups", .string r.groups), ("key", .string r.key),
    ("timestamp", .int r.timestamp), ("bits", .int r.value.toBits.toNat)]

def ofJson? (j : Json) : Option ValueRow := do
  match ← j.slots? ["device", "groups", "key", "timestamp", "bits"] with
  | [device, groups, key, timestamp, bits] =>
    return {
      device := ← device.required Json.string?
      groups := ← groups.required Json.string?
      key := ← key.required Json.string?
      timestamp := ← timestamp.required Json.int?
      value := .ofBits (.ofNat (← bits.required (Json.nat? countLimit))) }
  | _ => none

end ValueRow

namespace Tables

def toJson (t : Tables) : Json :=
  .object [
    ("alarms", .array (t.alarms.map AlarmRow.toJson)),
    ("alarm_history", .array (t.entries.map EntryRow.toJson)),
    ("channels", .array (t.channels.map ChannelRow.toJson)),
    ("outputs", .array (t.outputs.map OutputRow.toJson)),
    ("push_history", .array (t.pushes.map PushRow.toJson)),
    ("measurements", .array (t.values.map ValueRow.toJson))]

def ofJson? (j : Json) : Option Tables := do
  match ← j.slots? ["alarms", "alarm_history", "channels", "outputs", "push_history",
    "measurements"] with
  | [alarms, entries, channels, outputs, pushes, values] =>
    return {
      alarms := ← alarms.required (Json.list? AlarmRow.ofJson?)
      entries := ← entries.required (Json.list? EntryRow.ofJson?)
      channels := ← channels.required (Json.list? ChannelRow.ofJson?)
      outputs := ← outputs.required (Json.list? OutputRow.ofJson?)
      pushes := ← pushes.required (Json.list? PushRow.ofJson?)
      values := ← values.required (Json.list? ValueRow.ofJson?) }
  | _ => none

def text (t : Tables) : String := t.toJson.text

/-- The tables of a text, if it is that of a database. -/
def ofText? (text : String) : Option Tables :=
  (Json.ofText? text).bind ofJson?

end Tables

end Vigil

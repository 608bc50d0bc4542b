import Vigil.Delivery.Failure
import Vigil.Delivery.Request
import Vigil.Named
import Vigil.Text.Case
import Vigil.Time.Stamp

/-!
# Services

A channel delivers through a service: any endpoint that takes the text as it is, a Matrix room, a
Telegram chat or a Discord webhook. Each service gives an order of its own and says which answers mean
that the message arrived. Where a field without which nothing can be delivered is blank, or the method of
an endpoint is none, nothing is ordered.
-/

namespace Vigil

/-- An endpoint that takes the message as the body of a request. -/
structure Webhook where
  url : String
  method : String
  headers : Named String
  expectedStatus : Option Nat

/-- A room on a Matrix server. -/
structure MatrixRoom where
  host : String
  roomId : String
  token : String
  deriving DecidableEq, Repr

/-- A chat that a Telegram bot writes to. -/
structure TelegramChat where
  botKey : String
  chatId : String
  apiUrl : String
  deriving DecidableEq, Repr

/-- A Discord webhook, and the user to be mentioned. -/
structure DiscordHook where
  url : String
  userId : Option String
  deriving DecidableEq, Repr

/-- What a channel delivers through. -/
inductive Service where
  | webhook (w : Webhook)
  | matrix (m : MatrixRoom)
  | telegram (t : TelegramChat)
  | discord (d : DiscordHook)

namespace Service

/-- The method of a webhook that names none. -/
def defaultMethod : String := "POST"

/-- The server of a Telegram chat that names none. -/
def defaultTelegramApi : String := "https://api.telegram.org"

/-- A webhook that only has an address. -/
def ofUrl (url : String) : Service := .webhook ⟨url, defaultMethod, .empty, none⟩

/-- A chat on the public Telegram server. -/
def ofChat (botKey chatId : String) : Service := .telegram ⟨botKey, chatId, defaultTelegramApi⟩

def name : Service → String
  | webhook _ => "webhook"
  | matrix _ => "matrix"
  | telegram _ => "telegram"
  | discord _ => "discord"

def requiredFields : Service → List (String × String)
  | webhook w => [("url", w.url)]
  | matrix m => [("host", m.host), ("room_id", m.roomId), ("token", m.token)]
  | telegram t => [("bot_key", t.botKey), ("chat_id", t.chatId)]
  | discord d => [("url", d.url)]

/-- The first required field that is blank is an error. -/
def validate (s : Service) : Except SetupError Unit :=
  match s.requiredFields.find? fun field => Text.isBlankText field.2 with
  | some (field, _) => .error (.fieldRequired s.name field)
  | none => .ok ()

/-- The method of a webhook has to be one that the client knows. -/
def checkMethod (client : Client) : Service → Except SetupError Unit
  | webhook w => if client.isMethod (Text.upper w.method) then .ok () else .error (.invalidMethod w.method)
  | _ => .ok ()

def withoutSlashes (url : String) : String :=
  String.ofList (url.toList.reverse.dropWhile (· == '/')).reverse

/-- The colour of a Discord message about an alarm: red. -/
def alarmColor : Nat := 15158332

end Service

/-- The Discord message of a text, written at a time. -/
def DiscordHook.message (d : DiscordHook) (text : String) (now : Instant) : Json :=
  let embed := Json.object [
    ("title", .string "🔔 Alarm"),
    ("description", .string text),
    ("color", .int Service.alarmColor),
    ("timestamp", .string (Stamp.text "+00:00" now))]
  match d.userId with
  | some user => .object [("content", .string s!"<@{user}>"), ("embeds", .array [embed])]
  | none => .object [("embeds", .array [embed])]

namespace Service

/-- The order of a service for a message that is written at a time. The transaction tells one message to a
Matrix room from another. -/
def order (s : Service) (transaction text : String) (now : Instant) : Order :=
  match s with
  | webhook w => ⟨Text.upper w.method, w.url, w.headers.entries, none, .text text⟩
  | matrix m =>
    { method := "PUT"
      url := s!"{withoutSlashes m.host}/_matrix/client/r0/rooms/{m.roomId}/send/m.room.message/" ++
        transaction
      headers := []
      bearer := some m.token
      body := .json (.object [("msgtype", .string "m.text"), ("body", .string text)]) }
  | telegram t =>
    { method := "POST"
      url := s!"{withoutSlashes t.apiUrl}/bot{t.botKey}/sendMessage"
      headers := []
      bearer := none
      body := .json (.object [("chat_id", .string t.chatId), ("text", .string text)]) }
  | discord d => ⟨"POST", d.url, [], none, .json (d.message text now)⟩

/-- The status that a service has to answer with, if it is one only. -/
def expectedStatus : Service → Option Nat
  | webhook w => w.expectedStatus
  | telegram _ => some 200
  | _ => none

/-- The status says that the message arrived. -/
def accepts (s : Service) (status : Nat) : Bool :=
  match s.expectedStatus with
  | some expected => status == expected
  | none => 200 ≤ status && status < 300

/-- What a reply means for the message. -/
def outcome (s : Service) : Reply → Except DeliveryError Unit
  | .answered status body => if s.accepts status then .ok () else .error (.refused status body)
  | .dropped => .error .unreachable

/-- Deliver a message over a network. An order of which the client can make no request reaches nobody. -/
def deliver (s : Service) (network : Network) (transaction text : String) (now : Instant) :
    Except DeliveryError Unit × Network :=
  match s.validate, s.checkMethod network.client with
  | .error cause, _ => (.error (.setup cause), network)
  | .ok (), .error cause => (.error (.setup cause), network)
  | .ok (), .ok () =>
    match network.client.form? (s.order transaction text now) with
    | none => (.error .unreachable, network)
    | some request =>
      let (exchange, after) := network.send request
      (s.outcome exchange.reply, after)

end Service

end Vigil

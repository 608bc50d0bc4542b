import Vigil.Delivery.Service
import Vigil.Document.Form

/-!
# Services as documents

The JSON forms of services. The member `type` names the service; what a service does not have is left
out.
-/

namespace Vigil

open Json (Slot)

namespace Webhook

def members (w : Webhook) : List (String × Json) :=
  ("url", .string w.url) ::
  ("method", .string w.method) ::
  ("headers", .object (w.headers.map Json.string).entries) ::
  Json.memberIfSome "expect_status_code" (fun n => .int n) w.expectedStatus

def ofJson? (j : Json) : Option Webhook := do
  match ← j.slots? ["url", "method", "headers", "expect_status_code"] with
  | [url, method, headers, expectedStatus] =>
    return {
      url := ← url.required Json.string?
      method := ← method.orElse Service.defaultMethod Json.string?
      headers := ← headers.orElse .empty (Json.named? Json.string?)
      expectedStatus := ← expectedStatus.orElse none (Json.optional? (Json.nat? 65536)) }
  | _ => none

end Webhook

namespace MatrixRoom

def members (m : MatrixRoom) : List (String × Json) :=
  [("host", .string m.host), ("room_id", .string m.roomId), ("token", .string m.token)]

def ofJson? (j : Json) : Option MatrixRoom := do
  match ← j.slots? ["host", "room_id", "token"] with
  | [host, roomId, token] =>
    return {
      host := ← host.required Json.string?
      roomId := ← roomId.required Json.string?
      token := ← token.required Json.string? }
  | _ => none

end MatrixRoom

namespace TelegramChat

def members (t : TelegramChat) : List (String × Json) :=
  [("bot_key", .string t.botKey), ("chat_id", .string t.chatId), ("api_url", .string t.apiUrl)]

def ofJson? (j : Json) : Option TelegramChat := do
  match ← j.slots? ["bot_key", "chat_id", "api_url"] with
  | [botKey, chatId, apiUrl] =>
    return {
      botKey := ← botKey.required Json.string?
      chatId := ← chatId.required Json.string?
      apiUrl := ← apiUrl.orElse Service.defaultTelegramApi Json.string? }
  | _ => none

end TelegramChat

namespace DiscordHook

def members (d : DiscordHook) : List (String × Json) :=
  ("url", .string d.url) :: Json.memberIfSome "user_id" .string d.userId

def ofJson? (j : Json) : Option DiscordHook := do
  match ← j.slots? ["url", "user_id"] with
  | [url, userId] =>
    return {
      url := ← url.required Json.string?
      userId := ← userId.orElse none (Json.optional? Json.string?) }
  | _ => none

end DiscordHook

namespace Service

def members : Service → List (String × Json)
  | webhook w => w.members
  | matrix m => m.members
  | telegram t => t.members
  | discord d => d.members

def toJson (s : Service) : Json :=
  .object (("type", .string s.name) :: s.members)

def ofJson? (j : Json) : Option Service := do
  let (name, content) ← j.tagged? "type"
  match name with
  | "webhook" => (Webhook.ofJson? content).map .webhook
  | "matrix" => (MatrixRoom.ofJson? content).map .matrix
  | "telegram" => (TelegramChat.ofJson? content).map .telegram
  | "discord" => (DiscordHook.ofJson? content).map .discord
  | _ => none

end Service

end Vigil

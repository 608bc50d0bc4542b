import Vigil.Delivery.Client
import Vigil.Delivery.Service

/-!
# What a service orders

Wherever the receiver of a service looks for its message, there the order of the service has it.
-/

namespace Vigil

def Json.memberOf? (name : String) : Json → Option Json
  | .object members => (members.find? fun m => m.1 == name).map Prod.snd
  | _ => none

theorem Client.carriesBody_standard : Client.standard.CarriesBody := by
  intro o r h
  simp only [standard, standardRequest?, Option.bind_eq_bind, Option.bind_eq_some_iff] at h
  obtain ⟨address, -, headers, -, bearer, -, hr⟩ := h
  rw [← Option.some.inj hr]

namespace Service

/-- The message that a receiver finds in a body. -/
def textIn : Service → Body → Option String
  | webhook _, .text content => some content
  | matrix _, .json content => do (← content.memberOf? "body").string?
  | telegram _, .json content => do (← content.memberOf? "text").string?
  | discord _, .json content => do
    let embeds ← (← content.memberOf? "embeds").array?
    (← (← embeds.head?).memberOf? "description").string?
  | _, _ => none

theorem textIn_order (s : Service) (transaction text : String) (now : Instant) :
    s.textIn (s.order transaction text now).body = some text := by
  cases s with
  | webhook w => rfl
  | matrix m => rfl
  | telegram t => rfl
  | discord d =>
    cases huser : d.userId <;> simp [textIn, order, DiscordHook.message, huser, Json.memberOf?] <;> rfl

/-- A request of a client that carries what was ordered carries the message. -/
theorem textIn_of_form? {client : Client} (hbody : client.CarriesBody) {s : Service}
    {transaction text : String} {now : Instant} {r : Request}
    (h : client.form? (s.order transaction text now) = some r) : s.textIn r.body = some text := by
  rw [hbody _ r h]
  exact s.textIn_order transaction text now

end Service

end Vigil

import Vigil.Delivery.Document
import Vigil.Proofs.Alarm.Document
import Vigil.Proofs.Named

/-!
# Services read back

A service is read back from its JSON form, as long as the status that it waits for fits into 16 bits.
The member that names the service is told apart from its fields, which have other names.
-/

namespace Vigil

namespace Named

variable {α : Type} {m : Named α}

/-- Entries in ascending order are put in as they stand. -/
theorem ofList_entries (m : Named α) : ofList m.entries = m := by
  have hperm : (ofList m.entries).entries.Perm m.entries := perm_ofList m.nodup_names
  have hentries : (ofList m.entries).entries = m.entries := by
    refine hperm.eq_of_pairwise ?_ (ofList m.entries).ascending m.ascending
    intro a b _ _ hab hba
    exact absurd (String.lt_trans hab hba) (String.lt_irrefl a.1)
  cases m
  cases hlist : ofList _ with
  | mk entries ascending =>
    rw [hlist] at hentries
    cases hentries
    rfl

end Named

theorem Json.named?_object (m : Named String) :
    Json.named? Json.string? (.object (m.map Json.string).entries) = some m := by
  have hread : ∀ entries : List (String × String),
      ((entries.map fun e => (e.1, Json.string e.2)).mapM fun e =>
        (Json.string? e.2).map fun value => (e.1, value)) = some entries := by
    intro entries
    induction entries with
    | nil => rfl
    | cons e rest ih =>
      rw [List.map_cons, List.mapM_cons, ih]
      rfl
  have hnamed := congrArg (Option.map Named.ofList) (hread m.entries)
  exact hnamed.trans (congrArg some m.ofList_entries)

/-- The tag in front of the fields of a record, none of which has its name. -/
theorem Json.tagged?_cons {tag variant : String} {members : List (String × Json)}
    (h : tag ∉ members.map Prod.fst) :
    Json.tagged? tag (.object ((tag, .string variant) :: members)) = some (variant, .object members) := by
  have hne : ∀ m ∈ members, m.1 ≠ tag := fun m hm heq => h (heq ▸ List.mem_map_of_mem hm)
  have hnone : members.filter (fun m => m.1 == tag) = [] := by
    simpa [List.filter_eq_nil_iff] using fun name value hm => hne (name, value) hm
  have hall : members.filter (fun m => m.1 != tag) = members := by
    simpa [List.filter_eq_self] using fun name value hm => hne (name, value) hm
  simp [Json.tagged?, hnone, hall]

/-- The status that a service waits for is a number of 16 bits. -/
def Service.Fits (s : Service) : Prop :=
  ∀ status ∈ s.expectedStatus, status < 65536

theorem Webhook.ofJson?_members {w : Webhook} (h : (Service.webhook w).Fits) :
    Webhook.ofJson? (.object w.members) = some w := by
  obtain ⟨url, method, headers, expectedStatus⟩ := w
  have hheaders := Json.named?_object headers
  cases expectedStatus with
  | none =>
    show (Json.named? Json.string? (.object (headers.map Json.string).entries)).bind
      (fun headers => some _) = _
    rw [hheaders]
    rfl
  | some status =>
    have hstatus : Json.optional? (Json.nat? 65536) (.int status) = some (some status) :=
      congrArg (Option.map some) (nat?_int (h status rfl))
    show (Json.named? Json.string? (.object (headers.map Json.string).entries)).bind (fun headers =>
      (Json.optional? (Json.nat? 65536) (.int status)).bind fun status => some _) = _
    rw [hheaders, hstatus]
    rfl

theorem DiscordHook.ofJson?_members (d : DiscordHook) :
    DiscordHook.ofJson? (.object d.members) = some d := by
  obtain ⟨url, userId⟩ := d
  cases userId <;> rfl

theorem Service.type_notMem_members (s : Service) : "type" ∉ s.members.map Prod.fst := by
  cases s with
  | webhook w =>
    cases hstatus : w.expectedStatus <;> simp [members, Webhook.members, Json.memberIfSome, hstatus]
  | matrix r => simp [members, MatrixRoom.members]
  | telegram t => simp [members, TelegramChat.members]
  | discord d => cases hid : d.userId <;> simp [members, DiscordHook.members, Json.memberIfSome, hid]

theorem Service.ofJson?_toJson {s : Service} (h : s.Fits) : Service.ofJson? s.toJson = some s := by
  have htagged : Json.tagged? "type" s.toJson = some (s.name, .object s.members) :=
    Json.tagged?_cons s.type_notMem_members
  rw [ofJson?, htagged]
  cases s with
  | webhook w =>
    show (Webhook.ofJson? (.object w.members)).map Service.webhook = _
    rw [Webhook.ofJson?_members h]
    rfl
  | matrix r => rfl
  | telegram t => rfl
  | discord d =>
    show (DiscordHook.ofJson? (.object d.members)).map Service.discord = _
    rw [DiscordHook.ofJson?_members]
    rfl

end Vigil

import Mathlib.Data.List.Forall2
import Vigil.Offline
import Vigil.Proofs.Delivery.Requests
import Vigil.Proofs.Runner.Deeds
import Vigil.Proofs.Store.Outputs

/-!
# Telling outputs apart from each other

Of an output that is told of an event either something stands in the way of its message, or it sends one
request with that message. What stands in the way is a matter of its templates, its channel and what is
to be told. What becomes of an attempt is determined by these and by the reply to the request. So the
attempts, one after the other, neither stop each other nor find their way into each other's records.

Nothing is taken for granted of the renderer. Of the client it is that its requests carry what was ordered.
-/

namespace Vigil

namespace Network

def sendIf (n : Network) : Option Request → Option Exchange × Network
  | none => (none, n)
  | some r => ((n.send r).1, (n.send r).2)

def sendEach (n : Network) : List (Option Request) → List (Option Exchange) × Network
  | [] => ([], n)
  | r :: rest =>
    let (exchange, after) := n.sendIf r
    let (exchanges, after) := after.sendEach rest
    (exchange :: exchanges, after)

/-- What is heard of the requests. -/
def replies (n : Network) (rs : List (Option Request)) : List (Option Reply) :=
  (n.sendEach rs).1.map (Option.map Exchange.reply)

/-- What a request comes to: itself, if it reached somebody, and those that it was redirected to. -/
def reached : Option Request × Option Exchange → List Request
  | (some r, some exchange) => exchange.requests r
  | _ => []

theorem client_sendIf (n : Network) (r : Option Request) : (n.sendIf r).2.client = n.client := by
  cases r <;> rfl

theorem replies_cons (n : Network) (r : Option Request) (rest : List (Option Request)) :
    n.replies (r :: rest) = (n.sendIf r).1.map Exchange.reply :: (n.sendIf r).2.replies rest :=
  rfl

/-- There is a reply where there is a request. -/
theorem forall₂_replies (rs : List (Option Request)) (n : Network) :
    List.Forall₂ (fun r reply => r.isSome = reply.isSome) rs (n.replies rs) := by
  induction rs generalizing n with
  | nil => exact .nil
  | cons r rest ih =>
    refine .cons ?_ (ih (n.sendIf r).2)
    cases r <;> rfl

theorem sent_sendIf (n : Network) (r : Option Request) :
    (n.sendIf r).2.sent = n.sent ++ reached (r, (n.sendIf r).1) := by
  cases r with
  | none => exact (List.append_nil _).symm
  | some r => rfl

theorem sent_sendEach (rs : List (Option Request)) (n : Network) :
    (n.sendEach rs).2.sent = n.sent ++ (rs.zip (n.sendEach rs).1).flatMap reached := by
  induction rs generalizing n with
  | nil => exact (List.append_nil _).symm
  | cons r rest ih =>
    show ((n.sendIf r).2.sendEach rest).2.sent =
      n.sent ++ ((r, (n.sendIf r).1) :: rest.zip ((n.sendIf r).2.sendEach rest).1).flatMap reached
    rw [ih, sent_sendIf, List.append_assoc, List.flatMap_cons]

/-- The requests that there are may get any replies, whatever was sent before. -/
theorem exists_replies {rs : List (Option Request)} {replies : List (Option Reply)}
    (hsame : List.Forall₂ (fun r reply => r.isSome = reply.isSome) rs replies) (n : Network) :
    ∃ exchange, { n with exchange }.replies rs = replies := by
  -- How many were sent says which reply is next; what they were makes no difference.
  have hgiven : ∀ n : Network,
      (∀ i r, n.exchange (n.sent.length + i) r = .carried [] ((replies.filterMap id).getD i .dropped)) →
        n.replies rs = replies := by
    induction hsame with
    | nil => exact fun _ _ => rfl
    | @cons r reply rs replies hhead hsame ih =>
      intro n hn
      show (n.sendIf r).1.map Exchange.reply :: (n.sendIf r).2.replies rs = reply :: replies
      cases r with
      | none =>
        obtain rfl := Option.not_isSome_iff_eq_none.mp (ne_true_of_eq_false hhead.symm)
        exact congrArg _ (ih n hn)
      | some r =>
        obtain ⟨reply, rfl⟩ := Option.isSome_iff_exists.mp hhead.symm
        have hfirst : n.exchange n.sent.length r = .carried [] reply := hn 0 r
        have hsend : n.send r = (.carried [] reply, { n with sent := n.sent ++ [r] }) := by
          rw [send, hfirst]
          rfl
        rw [sendIf, hsend]
        refine congrArg _ (ih _ fun i q => ?_)
        rw [List.length_append, Nat.add_assoc, List.length_singleton, Nat.add_comm 1 i, hn]
        rfl
  refine ⟨fun i _ => .carried [] ((replies.filterMap id).getD (i - n.sent.length) .dropped),
    hgiven _ fun i r => ?_⟩
  exact congrArg (fun j => Exchange.carried [] ((replies.filterMap id).getD j .dropped))
    (Nat.add_sub_cancel_left _ _)

end Network

namespace Notice

variable {notice : Notice} {renderer : Renderer} {template text : String}

/-- What becomes of a message that templates make of a notice, by the reply to its request. -/
def verdict (notice : Notice) (renderer : Renderer) (client : Client) (templates : PerEvent String)
    (s : Service) (reply : Option Reply) : Except DeliveryError Unit :=
  match notice.message renderer (templates.get notice.event), s.validate, s.checkMethod client with
  | .error cause, _, _ => .error (.template cause)
  | .ok _, .error cause, _ => .error (.setup cause)
  | .ok _, .ok (), .error cause => .error (.setup cause)
  | .ok _, .ok (), .ok () => s.outcome (reply.getD .dropped)

/-- Without a reply nothing is delivered. -/
theorem exists_verdict_none (notice : Notice) (renderer : Renderer) (client : Client)
    (templates : PerEvent String) (s : Service) :
    ∃ cause, notice.verdict renderer client templates s none = .error cause := by
  unfold verdict
  split <;> exact ⟨_, rfl⟩

theorem message_eq_ok_iff : notice.message renderer template = .ok text ↔
    renderer.render? Renderer.round template notice.toJson = some text ∧
      Text.isBlankText text = false := by
  unfold message
  cases renderer.render? Renderer.round template notice.toJson with
  | none => simp
  | some found =>
    dsimp only
    split
    · rename_i hblank
      refine iff_of_false (fun h => nomatch h) ?_
      rintro ⟨⟨⟩, hvisible⟩
      rw [hblank] at hvisible
      cases hvisible
    · rename_i hvisible
      constructor
      · rintro ⟨⟩
        exact ⟨rfl, eq_false_of_ne_true hvisible⟩
      · rintro ⟨⟨⟩, -⟩
        rfl

end Notice

namespace Output

variable {o : Output} {renderer : Renderer} {client : Client} {notice : Notice} {r : Request}
  {time clock : Instant}

/-- The request by which an output tells of a notice, if there is one. -/
def request? (o : Output) (renderer : Renderer) (client : Client) (notice : Notice)
    (time clock : Instant) : Option Request :=
  match notice.message renderer (o.templates.get notice.event), o.channel.service.validate,
    o.channel.service.checkMethod client with
  | .ok text, .ok (), .ok () =>
    client.form? (o.channel.service.order (o.transaction time) text clock)
  | _, _, _ => none

/-- What stands in the way of telling an output: its template fails or renders to nothing but blanks, its
channel is refused, or the client does not know its method or can form no request of its order. -/
inductive Hindered (o : Output) (renderer : Renderer) (client : Client) (notice : Notice)
    (time clock : Instant) : Prop
  | unrendered
      (h : renderer.render? Renderer.round (o.templates.get notice.event) notice.toJson = none)
  | blank (text : String)
      (h : renderer.render? Renderer.round (o.templates.get notice.event) notice.toJson = some text)
      (hblank : Text.isBlankText text = true)
  | rejected (cause : SetupError) (h : o.channel.service.validate = .error cause)
  | methodless (cause : SetupError) (h : o.channel.service.checkMethod client = .error cause)
  | unformed (text : String)
      (h : renderer.render? Renderer.round (o.templates.get notice.event) notice.toJson = some text)
      (hform : client.form? (o.channel.service.order (o.transaction time) text clock) = none)

/-- What an output sends when nothing stands in the way: its message, in a request. -/
structure Sends (o : Output) (renderer : Renderer) (client : Client) (notice : Notice)
    (time clock : Instant) (text : String) (r : Request) : Prop where
  rendered : renderer.render? Renderer.round (o.templates.get notice.event) notice.toJson = some text
  visible : Text.isBlankText text = false
  formed : client.form? (o.channel.service.order (o.transaction time) text clock) = some r
  request : o.request? renderer client notice time clock = some r
  carried : o.channel.service.textIn r.body = some text

theorem request?_eq_some_iff : o.request? renderer client notice time clock = some r ↔
    ∃ text, notice.message renderer (o.templates.get notice.event) = .ok text ∧
      o.channel.service.validate = .ok () ∧ o.channel.service.checkMethod client = .ok () ∧
      client.form? (o.channel.service.order (o.transaction time) text clock) = some r := by
  unfold request?
  constructor
  · intro h
    split at h
    · rename_i text hmessage hvalid hmethod
      exact ⟨text, hmessage, hvalid, hmethod, h⟩
    · cases h
  · rintro ⟨text, hmessage, hvalid, hmethod, hform⟩
    rw [hmessage, hvalid, hmethod]
    exact hform

/-- There is a request unless something stands in the way. -/
theorem request?_eq_none_iff : o.request? renderer client notice time clock = none ↔
    o.Hindered renderer client notice time clock := by
  constructor
  · intro h
    unfold request? at h
    cases hrender : renderer.render? Renderer.round (o.templates.get notice.event) notice.toJson with
    | none => exact .unrendered hrender
    | some text =>
      by_cases hblank : Text.isBlankText text = true
      · exact .blank text hrender hblank
      · rw [Notice.message_eq_ok_iff.mpr ⟨hrender, eq_false_of_ne_true hblank⟩] at h
        cases hvalid : o.channel.service.validate with
        | error cause => exact .rejected cause hvalid
        | ok =>
          cases hmethod : o.channel.service.checkMethod client with
          | error cause => exact .methodless cause hmethod
          | ok =>
            rw [hvalid, hmethod] at h
            exact .unformed text hrender h
  · intro h
    refine Option.eq_none_iff_forall_ne_some.mpr fun r hr => ?_
    obtain ⟨text, hmessage, hvalid, hmethod, hform⟩ := request?_eq_some_iff.mp hr
    obtain ⟨hrender, hvisible⟩ := Notice.message_eq_ok_iff.mp hmessage
    cases h with
    | unrendered h => exact nomatch hrender.symm.trans h
    | blank found h hblank =>
      obtain rfl := Option.some.inj (hrender.symm.trans h)
      exact nomatch hvisible.symm.trans hblank
    | rejected cause h => exact nomatch hvalid.symm.trans h
    | methodless cause h => exact nomatch hmethod.symm.trans h
    | unformed found h hnone =>
      obtain rfl := Option.some.inj (hrender.symm.trans h)
      exact nomatch hform.symm.trans hnone

/-- An output that nothing stands in the way of has a request with its message. -/
theorem exists_sends (hbody : client.CarriesBody)
    (h : ¬ o.Hindered renderer client notice time clock) :
    ∃ text r, o.Sends renderer client notice time clock text r := by
  obtain ⟨r, hr⟩ := Option.ne_none_iff_exists'.mp (mt request?_eq_none_iff.mp h)
  obtain ⟨text, hmessage, -, -, hform⟩ := request?_eq_some_iff.mp hr
  obtain ⟨hrender, hvisible⟩ := Notice.message_eq_ok_iff.mp hmessage
  exact ⟨text, r, hrender, hvisible, hform, hr, Service.textIn_of_form? hbody hform⟩

/-- An attempt sends the request of the output, if there is one, and comes to the verdict on the reply. -/
theorem push_eq (o : Output) (notice : Notice) (p : Courier) (time clock : Instant) :
    let sent := p.sendIf (o.request? p.renderer p.client notice time clock)
    o.push notice p time clock =
      (notice.verdict p.renderer p.client o.templates o.channel.service (sent.1.map Exchange.reply),
        { p with toNetwork := sent.2 }) := by
  unfold push request? Notice.verdict Service.deliver
  cases notice.message p.renderer (o.templates.get notice.event) with
  | error cause => rfl
  | ok text =>
    cases o.channel.service.validate with
    | error cause => rfl
    | ok =>
      cases o.channel.service.checkMethod p.client with
      | error cause => rfl
      | ok =>
        dsimp only
        cases p.client.form? (o.channel.service.order (o.transaction time) text clock) <;> rfl

/-- What becomes of an output, by the reply to its request. -/
def outcome (renderer : Renderer) (client : Client) (notice : Notice) (o : Output)
    (reply : Option Reply) : PushOutcome :=
  .ofResult o.id (notice.verdict renderer client o.templates o.channel.service reply)

theorem outputId_outcome (o : Output) (reply : Option Reply) :
    (o.outcome renderer client notice reply).outputId = o.id :=
  PushOutcome.outputId_ofResult _ _

theorem success_outcome_none (o : Output) : (o.outcome renderer client notice none).success = false := by
  obtain ⟨cause, hcause⟩ :=
    notice.exists_verdict_none renderer client o.templates o.channel.service
  rw [outcome, hcause]
  rfl

end Output

namespace Notice

variable {notice : Notice} {renderer : Renderer} {client : Client} {outputs : List Output}
  {replies : List (Option Reply)}

/-- What becomes of outputs, by the replies to their requests. -/
def outcomes (notice : Notice) (renderer : Renderer) (client : Client) (outputs : List Output)
    (replies : List (Option Reply)) : List PushOutcome :=
  (outputs.zip replies).map fun p => p.1.outcome renderer client notice p.2

theorem map_outputId_outcomes (h : replies.length = outputs.length) :
    (notice.outcomes renderer client outputs replies).map PushOutcome.outputId =
      outputs.map Output.id := by
  have hid : (PushOutcome.outputId ∘ fun p : Output × Option Reply =>
      p.1.outcome renderer client notice p.2) = Output.id ∘ Prod.fst :=
    funext fun p => p.1.outputId_outcome p.2
  rw [outcomes, List.map_map, hid, ← List.map_map, List.map_fst_zip h.ge]

end Notice

/-- One attempt after the other: the requests are sent in turn, each outcome is that of its own output and
reply, and each is recorded. -/
theorem Dispatch.pushAll_eq (notice : Notice) (time clock : Instant) (outputs : List Output) {m : Memory}
    (p : Courier) (hthere : ∀ o ∈ outputs, o.id ∈ m.outputs.map Output.id) :
    let rs := outputs.map fun o => o.request? p.renderer p.client notice time clock
    let outcomes := notice.outcomes p.renderer p.client outputs (p.replies rs)
    pushAll notice time clock outputs (m, p) =
      (outcomes, m.pushed time (outcomes.map fun x => x.record time),
        { p with toNetwork := (p.sendEach rs).2 }) := by
  induction outputs generalizing m p with
  | nil => simp [pushAll, Notice.outcomes, Network.sendEach, Memory.pushed]
  | cons o rest ih =>
    have hpush := o.push_eq notice p time clock
    have hclient := p.client_sendIf (o.request? p.renderer p.client notice time clock)
    obtain ⟨exchange, after, hexchange⟩ : ∃ exchange after,
        p.sendIf (o.request? p.renderer p.client notice time clock) = (exchange, after) := ⟨_, _, rfl⟩
    obtain ⟨outcome, houtcome⟩ : ∃ outcome, PushOutcome.ofResult o.id (notice.verdict p.renderer p.client
        o.templates o.channel.service (exchange.map Exchange.reply)) = outcome := ⟨_, rfl⟩
    have hrecord : record m outcome time = m.pushed time [outcome.record time] := by
      refine record_eq ?_ time
      rw [← houtcome, PushOutcome.outputId_ofResult]
      exact hthere o List.mem_cons_self
    -- A record leaves the identifiers of the outputs as they are, so the outputs that follow are found.
    have hlater := ih (m := m.pushed time [outcome.record time]) { p with toNetwork := after }
      fun q hq => by
        rw [Output.map_id_pushed]
        exact hthere q (List.mem_cons_of_mem _ hq)
    rw [hexchange] at hclient
    dsimp only at hpush hclient hlater ⊢
    rw [hexchange] at hpush
    rw [hclient] at hlater
    rw [pushAll, hpush, List.map_cons, Network.replies_cons, Network.sendEach, hexchange]
    dsimp only
    rw [houtcome, hrecord, hlater]
    simp [Notice.outcomes, Output.outcome, Memory.pushed, houtcome]

namespace Memory

variable {m : Memory} {os : List Output} {time : Instant}

theorem touched_eq_map (hids : (os.map Output.id).Nodup) (time : Instant) (id : Uuid) :
    touched time os id = os.map fun o => if o.id = id then { o with lastPushed := some time } else o := by
  by_cases h : ∃ o ∈ os, o.id = id
  · rw [touched, touch_eq_map hids h]
    rfl
  · have hne : ∀ o ∈ os, o.id ≠ id := fun o ho hid => h ⟨o, ho, hid⟩
    rw [touched, touch_eq_none hne, map_eq_self_iff.mpr fun o ho => if_neg (hne o ho)]
    rfl

theorem foldl_touched (hids : (os.map Output.id).Nodup) (time : Instant) (ids : List Uuid) :
    ids.foldl (touched time) os =
      os.map fun o => if o.id ∈ ids then { o with lastPushed := some time } else o := by
  induction ids generalizing os with
  | nil => simp
  | cons id rest ih =>
    have hids' : ((touched time os id).map Output.id).Nodup := by
      rwa [Output.map_id_touched]
    rw [List.foldl_cons, ih hids', touched_eq_map hids, List.map_map]
    refine List.map_congr_left fun o _ => ?_
    rw [Function.comp_apply]
    by_cases hid : o.id = id
    · rw [if_pos hid, if_pos (List.mem_cons.mpr (.inl hid))]
      exact ite_self _
    · rw [if_neg hid]
      simp only [List.mem_cons, hid, false_or]

/-- The outputs that outcomes are of note the time. -/
theorem outputs_pushed (hids : (m.outputs.map Output.id).Nodup) (time : Instant)
    (outcomes : List PushOutcome) :
    (m.pushed time (outcomes.map fun p => p.record time)).outputs = m.outputs.map fun o =>
      if o.id ∈ outcomes.map PushOutcome.outputId then { o with lastPushed := some time } else o := by
  rw [← foldl_touched hids, pushed, List.foldl_map, List.foldl_map]
  rfl

/-- The outcomes of an output are recorded with it. -/
theorem pushes_pushed (m : Memory) (time : Instant) (outcomes : List PushOutcome) (id : Uuid) :
    (m.pushed time (outcomes.map fun p => p.record time)).pushes id = (m.pushes id).map
      (· ++ (outcomes.filter fun p => p.outputId = id).map fun p => p.record time) := by
  rw [pushes, pushed, List.filter_append, List.filter_map]
  rfl

end Memory

/-- Of things with keys of their own, one has its key. -/
theorem filter_key_eq_singleton {α β : Type} [DecidableEq β] {key : α → β} {as : List α} {a : α}
    (hkeys : (as.map key).Nodup) (ha : a ∈ as) : (as.filter fun b => key b = key a) = [a] := by
  induction as with
  | nil => cases ha
  | cons b rest ih =>
    rw [List.map_cons, List.nodup_cons] at hkeys
    rcases List.mem_cons.mp ha with rfl | hrest
    · have hnone : (rest.filter fun b => key b = key a) = [] := by
        refine List.filter_eq_nil_iff.mpr fun b hb hkey => hkeys.1 ?_
        rw [← of_decide_eq_true hkey]
        exact List.mem_map_of_mem hb
      rw [List.filter_cons_of_pos (by simp), hnone]
    · have hne : key b ≠ key a := fun hkey => hkeys.1 (hkey ▸ List.mem_map_of_mem hrest)
      rw [List.filter_cons_of_neg (by simpa using hne), ih hkeys.2 hrest]

namespace Occasion

/-- The occasion concerns an output: it is one of the alarm, enabled, and wants to hear of the event. -/
def concerns (c : Occasion) (o : Output) : Bool :=
  o.alarmId = c.alarm.id && o.enabled && o.subscribed.get c.event

/-- The outputs that are told of an occasion, in the order of their creation. -/
def told (c : Occasion) (m : Memory) : List Output :=
  m.outputs.filter c.concerns

/-- The requests of the outputs, each its own. -/
def requests (c : Occasion) (renderer : Renderer) (client : Client) (clock : Instant) (m : Memory) :
    List (Option Request) :=
  (c.told m).map fun o => o.request? renderer client c.notice c.time clock

/-- What telling of an occasion comes to, for the outputs apart from each other. -/
structure TellsApart (c : Occasion) (clock : Instant) (m : Memory) (p : Courier)
    (outcomes : List PushOutcome) (after : Memory) (p' : Courier) : Prop where
  /-- There is one outcome for each output that is told, in the order of their creation. -/
  returned : outcomes.map PushOutcome.outputId = (c.told m).map Output.id
  /-- Each outcome is that of the output's own templates and channel and of the reply to its request. -/
  answered : outcomes =
    ((c.told m).zip (p.replies (c.requests p.renderer p.client clock m))).map fun x =>
      .ofResult x.1.id (c.notice.verdict p.renderer p.client x.1.templates x.1.channel.service x.2)
  /-- The requests are sent in turn, and nothing else is. -/
  requested : p' = { p with toNetwork := (p.sendEach (c.requests p.renderer p.client clock m)).2 }
  /-- The network notes those that reached somebody, each with what it was redirected to. -/
  noted : p'.sent = p.sent ++ ((c.requests p.renderer p.client clock m).zip
    (p.sendEach (c.requests p.renderer p.client clock m)).1).flatMap Network.reached
  /-- An output that something stands in the way of sends nothing, and fails. -/
  hindered : ∀ o ∈ c.told m, o.Hindered p.renderer p.client c.notice c.time clock →
    o.request? p.renderer p.client c.notice c.time clock = none ∧
      ∀ x ∈ outcomes, x.outputId = o.id → x.success = false
  /-- Every other output has one request, with its message. -/
  sends : ∀ o ∈ c.told m, ¬ o.Hindered p.renderer p.client c.notice c.time clock →
    ∃ text r, o.Sends p.renderer p.client c.notice c.time clock text r
  /-- The outputs that are told note the time, the outcomes are recorded, and nothing else changes. -/
  kept : after = { m with
    outputs := m.outputs.map fun o => if c.concerns o then { o with lastPushed := some c.time } else o
    pushLog := m.pushLog ++ outcomes.map fun x => x.record c.time }
  /-- An output that is told has one more record. -/
  recorded : ∀ x ∈ outcomes,
    after.pushes x.outputId = (m.pushes x.outputId).map (· ++ [x.record c.time])
  /-- No other output has one. -/
  unrecorded : ∀ id, (∀ o ∈ c.told m, o.id ≠ id) → after.pushes id = m.pushes id

variable {c : Occasion} {clock : Instant} {m : Memory} {p : Courier}

theorem outputs_eq_told (c : Occasion) (m : Memory) :
    Repository.outputs m c.alarm.id (.ofEvent c.event) = .ok (c.told m) := by
  show Except.ok _ = _
  refine congrArg Except.ok (List.filter_congr fun o _ => ?_)
  show (decide (o.alarmId = c.alarm.id) && (o.enabled && o.subscribed.get c.event)) = c.concerns o
  rw [concerns, Bool.and_assoc]

theorem mem_told_iff (hids : (m.outputs.map Output.id).Nodup) {o : Output} (ho : o ∈ m.outputs) :
    o.id ∈ (c.told m).map Output.id ↔ c.concerns o = true := by
  constructor
  · intro h
    obtain ⟨q, hq, hid⟩ := List.mem_map.mp h
    obtain ⟨hmem, hconcerns⟩ := List.mem_filter.mp hq
    rwa [List.inj_on_of_nodup_map hids hmem ho hid] at hconcerns
  · intro h
    exact List.mem_map_of_mem (List.mem_filter.mpr ⟨ho, h⟩)

/-- There is a reply to an output where it has a request. -/
theorem forall₂_told (c : Occasion) (clock : Instant) (m : Memory) (p : Courier) :
    List.Forall₂ (fun o reply =>
      (o.request? p.renderer p.client c.notice c.time clock).isSome = reply.isSome) (c.told m)
      (p.replies (c.requests p.renderer p.client clock m)) :=
  List.forall₂_map_left_iff.mp (Network.forall₂_replies _ _)

/-- Telling of an occasion is an attempt for each output that is told. -/
theorem dispatch_eq (c : Occasion) (clock : Instant) (m : Memory) (p : Courier) :
    let rs := c.requests p.renderer p.client clock m
    let outcomes := c.notice.outcomes p.renderer p.client (c.told m) (p.replies rs)
    c.dispatch clock (m, p) = .ok (outcomes, m.pushed c.time (outcomes.map fun x => x.record c.time),
      { p with toNetwork := (p.sendEach rs).2 }) := by
  rw [dispatch, outputs_eq_told]
  exact congrArg Except.ok (Dispatch.pushAll_eq c.notice c.time clock (c.told m) p
    fun o ho => List.mem_map_of_mem (List.filter_sublist.subset ho))

/-- Of an output that has no request no outcome is a success. -/
theorem success_of_request?_eq_none (hids : (m.outputs.map Output.id).Nodup) {o : Output}
    (ho : o ∈ c.told m) (h : o.request? p.renderer p.client c.notice c.time clock = none)
    {x : PushOutcome} (hid : x.outputId = o.id)
    (hx : x ∈ c.notice.outcomes p.renderer p.client (c.told m)
      (p.replies (c.requests p.renderer p.client clock m))) : x.success = false := by
  obtain ⟨⟨q, reply⟩, hmem, rfl⟩ := List.mem_map.mp hx
  have htold : (c.told m).Sublist m.outputs := List.filter_sublist
  have hsame : q = o := List.inj_on_of_nodup_map hids (htold.subset (List.of_mem_zip hmem).1)
    (htold.subset ho) ((q.outputId_outcome reply).symm.trans hid)
  have hreply := (List.forall₂_iff_zip.mp (c.forall₂_told clock m p)).2 hmem
  rw [hsame, h] at hreply
  obtain rfl : reply = none := Option.not_isSome_iff_eq_none.mp (ne_true_of_eq_false hreply.symm)
  exact q.success_outcome_none

theorem tellsApart (c : Occasion) (clock : Instant) (hids : (m.outputs.map Output.id).Nodup)
    (hbody : p.client.CarriesBody) :
    let rs := c.requests p.renderer p.client clock m
    let outcomes := c.notice.outcomes p.renderer p.client (c.told m) (p.replies rs)
    c.TellsApart clock m p outcomes (m.pushed c.time (outcomes.map fun x => x.record c.time))
      { p with toNetwork := (p.sendEach rs).2 } := by
  intro rs outcomes
  have htold : (c.told m).Sublist m.outputs := List.filter_sublist
  have hreturned : outcomes.map PushOutcome.outputId = (c.told m).map Output.id :=
    Notice.map_outputId_outcomes (c.forall₂_told clock m p).length_eq.symm
  have hkeys : (outcomes.map PushOutcome.outputId).Nodup := by
    rw [hreturned]
    exact hids.sublist (htold.map _)
  refine ⟨hreturned, rfl, rfl, Network.sent_sendEach _ _, ?_,
    fun o _ h => Output.exists_sends hbody h, ?_, ?_, ?_⟩
  · intro o ho hhindered
    have hnone := Output.request?_eq_none_iff.mpr hhindered
    exact ⟨hnone, fun x hx hid => success_of_request?_eq_none hids ho hnone hid hx⟩
  · have houtputs := Memory.outputs_pushed hids c.time outcomes
    rw [hreturned, List.map_congr_left fun o ho => if_congr (mem_told_iff hids ho) rfl rfl] at houtputs
    exact congrArg (fun outputs => { m.pushed c.time (outcomes.map fun x => x.record c.time) with
      outputs := outputs }) houtputs
  · intro x hx
    rw [Memory.pushes_pushed, filter_key_eq_singleton hkeys hx]
    rfl
  · intro id hid
    have hnone : (outcomes.filter fun x => x.outputId = id) = [] := by
      refine List.filter_eq_nil_iff.mpr fun x hx h => ?_
      have hmem : x.outputId ∈ (c.told m).map Output.id := hreturned ▸ List.mem_map_of_mem hx
      obtain ⟨o, ho, heq⟩ := List.mem_map.mp hmem
      exact hid o ho (heq.trans (of_decide_eq_true h))
    rw [Memory.pushes_pushed, hnone]
    exact congrArg Except.ok (List.append_nil _)

end Occasion

end Vigil

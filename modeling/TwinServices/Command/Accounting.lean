import TwinServices.Command.Publisher

/-!
# Every request is accounted for

What a call of `publish()` has done so far is its `Progress`. The publisher shows of every request
exactly its progress and nothing more (`Shows`), and a step moves at most one request on. So the
requests can be accounted for one by one, in every interleaving.

* `step_request`: what a step does to the requests.
* `AccountInv`: every request shows a progress, and the counter counts those that returned.
* `retired_of_run`: a client that `run()` has given up is never used again.
* `commands_not_buffered`: one call of `client.publish` per request at most, on the client that was
  stored; 202 for the calls that returned and 503 for those that raised or found no client; and no
  command is kept longer than its call.
-/

set_option autoImplicit false

namespace TwinServices.Command

open TwinServices.Python TwinServices.Contracts Lib.Transition Lib.Binary64

section accounting

variable [CPython]

/-! ## Progress -/

/-- How far a call of `publish()` is. -/
inductive Progress
  | idle
  /-- It found no client. -/
  | refused
  /-- It is suspended in `client.publish`. -/
  | pending (call : Call)
  /-- `client.publish` returned. -/
  | returned (call : Call)
  /-- `client.publish` raised. -/
  | failed (call : Call) (error : String)

namespace Progress

/-- The call that is suspended. -/
def call : Progress → Option Call
  | pending call => some call
  | _ => none

/-- The call of `client.publish` that was made. -/
def made : Progress → Option Call
  | pending call | returned call | failed call _ => some call
  | _ => none

/-- The answer to the request. -/
def answer (asset : String) : Progress → Option Answer
  | idle | pending _ => none
  | refused => some (.unavailable "MQTT broker unavailable")
  | returned call => some (.accepted call.command.kind (commandTopic asset))
  | failed _ error => some (.unavailable error)

/-- A request without a call and an answer was not made. -/
theorem eq_idle {asset : String} {p : Progress} (hcall : p.call = none)
    (hanswer : p.answer asset = none) : p = .idle := by
  cases p with
  | idle => rfl
  | pending call => cases hcall
  | _ => cases hanswer

/-- A request with a call is pending. -/
theorem eq_pending {p : Progress} {call : Call} (h : p.call = some call) : p = .pending call := by
  cases p with
  | pending call' => exact congrArg pending (Option.some.inj h)
  | _ => cases h

end Progress

/-- The request that an event is about. -/
def Event.request : Event → Option Request
  | .post n _ | .publishReturned n | .publishFailed n _ => some n
  | _ => none

/-- The requests for which `client.publish` returned, oldest first. -/
def returned (l : List Event) : List Request :=
  l.filterMap fun e => match e with
    | .publishReturned n => some n
    | _ => none

/-- Another event is no return. -/
theorem returned_concat {l : List Event} {e : Event} (he : ∀ n, e ≠ .publishReturned n) :
    returned (l ++ [e]) = returned l := by
  rw [returned, List.filterMap_append]
  cases e with
  | publishReturned n => exact absurd rfl (he n)
  | _ => exact List.append_nil _

/-- A return is the last one. -/
theorem returned_concat_self (l : List Event) (n : Request) :
    returned (l ++ [.publishReturned n]) = returned l ++ [n] := by
  simp [returned]

/-- The return of another request does not count. -/
theorem mem_returned_concat {l : List Event} {e : Event} {n : Request}
    (he : e ≠ .publishReturned n) : n ∈ returned (l ++ [e]) ↔ n ∈ returned l := by
  by_cases hreturn : ∃ m, e = .publishReturned m
  · obtain ⟨m, rfl⟩ := hreturn
    have hne : n ≠ m := fun heq => he (heq ▸ rfl)
    rw [returned_concat_self, List.mem_append, List.mem_singleton]
    exact or_iff_left hne
  · rw [returned_concat fun m heq => hreturn ⟨m, heq⟩]

/-- One more event is another one. -/
theorem mem_concat_of_ne {l : List Event} {e e' : Event} (h : e ≠ e') :
    e' ∈ l ++ [e] ↔ e' ∈ l := by
  rw [List.mem_append, List.mem_singleton]
  exact or_iff_left h.symm

variable [Pydantic]

/-- A call of `client.publish` for a request. -/
def Call.sent (asset : String) (n : Request) (call : Call) : Sent :=
  ⟨n, call.client, commandTopic asset, call.command.modelDumpJson⟩

/-- A request entered `publish()` with a command, while a client was the stored one. -/
def Entered (asset : String) (l : List Event) (n : Request) (call : Call) : Prop :=
  ∃ before s, before ++ [.post n call.command] <+: l ∧ Run (step asset) State.init before s ∧
    s.client = some call.client

/-- A request entered `publish()` while no client was stored. -/
def Refused (asset : String) (l : List Event) (n : Request) : Prop :=
  ∃ before s command, before ++ [.post n command] <+: l ∧ Run (step asset) State.init before s ∧
    s.client = none

/-- What was refused stays refused. -/
theorem Refused.mono {asset : String} {l l' : List Event} {n : Request}
    (h : Refused asset l n) (hp : l <+: l') : Refused asset l' n := by
  obtain ⟨before, s, command, hbefore, hrun, hclient⟩ := h
  exact ⟨before, s, command, hbefore.trans hp, hrun, hclient⟩

/-- What was entered stays entered. -/
theorem Entered.mono {asset : String} {l l' : List Event} {n : Request} {call : Call}
    (h : Entered asset l n call) (hp : l <+: l') : Entered asset l' n call := by
  obtain ⟨before, s, hbefore, hrun, hclient⟩ := h
  exact ⟨before, s, hbefore.trans hp, hrun, hclient⟩

/-- The state and the run so far show of a request its progress. -/
structure Shows (asset : String) (l : List Event) (s : State) (n : Request) (p : Progress) :
    Prop where
  calls : s.calls n = p.call
  answers : s.answers n = p.answer asset
  sent : (s.sent.filter fun entry => entry.request = n) = (p.made.map (Call.sent asset n)).toList
  listed : n ∈ returned l ↔ ∃ call, p = .returned call
  failed : ∀ error, .publishFailed n error ∈ l ↔ ∃ call, p = .failed call error
  posted : ∀ command, .post n command ∈ l → p ≠ .idle
  entered : ∀ call, p.made = some call → Entered asset l n call
  refused : p = .refused → Refused asset l n

/-! ## One step -/

/-- What a step does to the requests: nothing, or it moves one of them on. -/
theorem step_request {asset : String} {s t : State} {e : Event} (h : step asset s e = some t) :
    (e.request = none ∧ t.calls = s.calls ∧ t.answers = s.answers ∧
      t.sent = s.sent ∧ t.published = s.published) ∨
    (∃ n command, e = .post n command ∧ s.calls n = none ∧ s.answers n = none ∧
      s.client = none ∧ t = { s with
        answers := Function.update s.answers n
          (some (.unavailable "MQTT broker unavailable")) }) ∨
    (∃ n call, e = .post n call.command ∧ s.calls n = none ∧ s.answers n = none ∧
      s.client = some call.client ∧ t = { s with
        calls := Function.update s.calls n (some call)
        sent := s.sent ++ [call.sent asset n] }) ∨
    (∃ n call, e = .publishReturned n ∧ s.calls n = some call ∧
      t = returnPublish asset s n call) ∨
    (∃ n call error, e = .publishFailed n error ∧ s.calls n = some call ∧
      t = failPublish s n error) := by
  rcases step_cases h with ⟨rfl, -, rfl⟩ | ⟨rfl | rfl, rfl⟩ | ⟨c, rfl, -, rfl⟩ | ⟨rfl, rfl⟩ |
    ⟨n, command, rfl, hcalls, hanswers, rfl⟩ | ⟨n, call, rfl, hcall, rfl⟩ |
    ⟨n, call, error, rfl, hcall, rfl⟩
  -- `run()` moves on
  · exact Or.inl ⟨rfl, rfl, rfl, rfl, rfl⟩
  · exact Or.inl ⟨rfl, rfl, rfl, rfl, rfl⟩
  · exact Or.inl ⟨rfl, rfl, rfl, rfl, rfl⟩
  · exact Or.inl ⟨rfl, rfl, rfl, rfl, rfl⟩
  · exact Or.inl ⟨rfl, rfl, rfl, rfl, rfl⟩
  -- a call of `publish()` moves on
  · right
    rcases enterPublish_cases asset s n command with ⟨hclient, heq⟩ | ⟨client, hclient, heq⟩
    · exact Or.inl ⟨n, command, rfl, hcalls, hanswers, hclient, heq⟩
    · exact Or.inr (Or.inl ⟨n, ⟨client, command⟩, rfl, hcalls, hanswers, hclient, heq⟩)
  · exact Or.inr (Or.inr (Or.inr (Or.inl ⟨n, call, rfl, hcall, rfl⟩)))
  · exact Or.inr (Or.inr (Or.inr (Or.inr ⟨n, call, error, rfl, hcall, rfl⟩)))

/-! ## The invariant -/

section invariant

variable {asset : String} {l : List Event} {s t : State}

/-- A step that leaves a request alone. -/
theorem Shows.other {e : Event} {n : Request} {p : Progress} (h : Shows asset l s n p)
    (hcalls : t.calls n = s.calls n) (hanswers : t.answers n = s.answers n)
    (hsent : t.sent.filter (fun entry => entry.request = n) =
      s.sent.filter fun entry => entry.request = n)
    (he : e.request ≠ some n) : Shows asset (l ++ [e]) t n p where
  calls := hcalls.trans h.calls
  answers := hanswers.trans h.answers
  sent := hsent.trans h.sent
  listed := by
    rw [mem_returned_concat (by rintro rfl; exact he rfl)]
    exact h.listed
  failed error := by
    rw [mem_concat_of_ne (by rintro rfl; exact he rfl)]
    exact h.failed error
  posted command hmem := by
    rcases List.mem_append.mp hmem with hmem | hmem
    · exact h.posted command hmem
    · exact absurd (congrArg Event.request (List.mem_singleton.mp hmem)).symm he
  entered call hcall := (h.entered call hcall).mono (List.prefix_append ..)
  refused hp := (h.refused hp).mono (List.prefix_append ..)

/-- The counter of a kind, from the requests that were answered with it. -/
def countAccepted (asset : String) (l : List Event) (s : State) (kind : CommandKind) : ℕ :=
  (returned l).countP fun n => s.answers n = some (.accepted kind (commandTopic asset))

/-- The invariant of the publisher over its history. -/
structure AccountInv (asset : String) (l : List Event) (s : State) : Prop where
  shows : ∀ n, ∃ p, Shows asset l s n p
  nodup : (returned l).Nodup
  published : ∀ kind, s.published kind = countAccepted asset l s kind

omit [Pydantic] in
/-- The answers to the requests that returned decide the counter. -/
theorem countAccepted_congr (h : ∀ n ∈ returned l, t.answers n = s.answers n)
    (kind : CommandKind) : countAccepted asset l t kind = countAccepted asset l s kind := by
  apply List.countP_congr
  intro n hn
  rw [h n hn]

/-- A new publisher has no requests. -/
theorem accountInv_init : AccountInv asset [] State.init where
  shows n := ⟨.idle, rfl, rfl, rfl, by simp [returned], by simp, by simp, by simp [Progress.made],
    by simp⟩
  nodup := List.nodup_nil
  published _ := rfl

/-- A request that is not answered yet and is answered with an error does not count. -/
theorem AccountInv.of_not_returned {e : Event} {n : Request} (h : AccountInv asset l s)
    (he : e.request = some n) (hreturn : ∀ m, e ≠ .publishReturned m)
    (hpublished : t.published = s.published)
    (hn : n ∉ returned l) (hother : ∀ m, m ≠ n → t.calls m = s.calls m ∧
      t.answers m = s.answers m ∧ t.sent.filter (fun entry => entry.request = m) =
        s.sent.filter fun entry => entry.request = m)
    (hshows : ∃ p, Shows asset (l ++ [e]) t n p) : AccountInv asset (l ++ [e]) t where
  shows m := by
    by_cases heq : m = n
    · exact heq ▸ hshows
    · obtain ⟨hcalls, hanswers, hsent⟩ := hother m heq
      obtain ⟨p, hp⟩ := h.shows m
      refine ⟨p, hp.other hcalls hanswers hsent ?_⟩
      rw [he]
      exact fun hsome => heq (Option.some.inj hsome).symm
  nodup := by
    rw [returned_concat hreturn]
    exact h.nodup
  published kind := by
    rw [hpublished, h.published, countAccepted, countAccepted, returned_concat hreturn]
    refine (countAccepted_congr ?_ kind).symm
    intro m hm
    exact (hother m fun heq => hn (heq ▸ hm)).2.1

omit [CPython] [Pydantic] in
/-- One more call, for another request. -/
theorem filter_sent_concat {sent : List Sent} {entry : Sent} {n : Request}
    (h : n ≠ entry.request) : (sent ++ [entry]).filter (fun entry => entry.request = n) =
      sent.filter fun entry => entry.request = n := by
  rw [List.filter_append, List.filter_cons_of_neg (by simpa using h.symm), List.filter_nil,
    List.append_nil]

/-- A call that has not returned is not in the list of those that have. -/
theorem Shows.not_returned {n : Request} {p : Progress} (h : Shows asset l s n p)
    (hp : ∀ call, p ≠ .returned call) : n ∉ returned l := by
  intro hmem
  obtain ⟨call, hcall⟩ := h.listed.mp hmem
  exact hp call hcall

/-- A request that is neither in a call nor answered. -/
theorem AccountInv.idle (h : AccountInv asset l s) {n : Request} (hcalls : s.calls n = none)
    (hanswers : s.answers n = none) : Shows asset l s n .idle ∧ n ∉ returned l := by
  obtain ⟨p, hp⟩ := h.shows n
  obtain rfl := p.eq_idle (hp.calls.symm.trans hcalls) (hp.answers.symm.trans hanswers)
  exact ⟨hp, hp.not_returned (by simp)⟩

/-- A request that is in a call. -/
theorem AccountInv.pending (h : AccountInv asset l s) {n : Request} {call : Call}
    (hcall : s.calls n = some call) : Shows asset l s n (.pending call) ∧ n ∉ returned l := by
  obtain ⟨p, hp⟩ := h.shows n
  obtain rfl := p.eq_pending (hp.calls.symm.trans hcall)
  exact ⟨hp, hp.not_returned (by simp)⟩

/-- A call that has not failed is not one of those that failed. -/
theorem Shows.not_failed {n : Request} {p : Progress} (h : Shows asset l s n p)
    (hp : ∀ call error, p ≠ .failed call error) (error : String) : .publishFailed n error ∉ l := by
  intro hmem
  obtain ⟨call, hcall⟩ := (h.failed error).mp hmem
  exact hp call error hcall

/-- A request that finds no client. -/
theorem AccountInv.refuse (h : AccountInv asset l s)
    (hrun : Run (Command.step asset) State.init l s) {n : Request} {command : JointCommand Double}
    (hcalls : s.calls n = none) (hanswers : s.answers n = none) (hclient : s.client = none) :
    AccountInv asset (l ++ [.post n command]) { s with
      answers := Function.update s.answers n
        (some (.unavailable "MQTT broker unavailable")) } := by
  obtain ⟨hp, hn⟩ := h.idle hcalls hanswers
  refine h.of_not_returned rfl (by simp) ?_ hn ?_ ?_
  · rfl
  · intro m hne
    exact ⟨rfl, Function.update_of_ne hne .., rfl⟩
  · refine ⟨.refused, hp.calls, Function.update_self .., hp.sent, ?_, fun error => ?_, by simp, ?_,
      fun _ => ⟨l, s, command, List.prefix_rfl, hrun, hclient⟩⟩
    · rw [mem_returned_concat (by simp)]
      exact iff_of_false hn (by simp)
    · rw [mem_concat_of_ne (by simp)]
      exact iff_of_false (hp.not_failed (by simp) error) (by simp)
    · exact fun call hcall => by cases hcall

/-- A request that calls `client.publish`. -/
theorem AccountInv.enter (h : AccountInv asset l s) (hrun : Run (Command.step asset) State.init l s)
    {n : Request} {call : Call} (hcalls : s.calls n = none) (hanswers : s.answers n = none)
    (hclient : s.client = some call.client) :
    AccountInv asset (l ++ [.post n call.command]) { s with
      calls := Function.update s.calls n (some call)
      sent := s.sent ++ [call.sent asset n] } := by
  obtain ⟨hp, hn⟩ := h.idle hcalls hanswers
  refine h.of_not_returned rfl (by simp) ?_ hn ?_ ?_
  · rfl
  · intro m hne
    exact ⟨Function.update_of_ne hne .., rfl, filter_sent_concat hne⟩
  · refine ⟨.pending call, Function.update_self .., hp.answers, ?_, ?_, fun error => ?_, by simp,
      ?_, by simp⟩
    · simp only
      rw [List.filter_append, hp.sent]
      simp [Progress.made, Call.sent]
    · rw [mem_returned_concat (by simp)]
      exact iff_of_false hn (by simp)
    · rw [mem_concat_of_ne (by simp)]
      exact iff_of_false (hp.not_failed (by simp) error) (by simp)
    · intro call' hmade
      obtain rfl := Option.some.inj hmade
      exact ⟨l, s, List.prefix_rfl, hrun, hclient⟩

/-- A call that returns. -/
theorem AccountInv.succeed (h : AccountInv asset l s) {n : Request} {call : Call}
    (hcall : s.calls n = some call) :
    AccountInv asset (l ++ [.publishReturned n]) (returnPublish asset s n call) := by
  obtain ⟨hp, hn⟩ := h.pending hcall
  have hanswers : ∀ m, m ≠ n → (returnPublish asset s n call).answers m = s.answers m :=
    fun m hne => Function.update_of_ne hne ..
  refine ⟨fun m => ?_, ?_, fun kind => ?_⟩
  · by_cases heq : m = n
    · subst heq
      refine ⟨.returned call, Function.update_self .., Function.update_self .., hp.sent, ?_,
        fun error => ?_, by simp, ?_, by simp⟩
      · rw [returned_concat_self]
        exact iff_of_true (List.mem_append_right _ (List.mem_singleton_self m)) ⟨call, rfl⟩
      · rw [mem_concat_of_ne (by simp)]
        exact iff_of_false (hp.not_failed (by simp) error) (by simp)
      · exact fun call' hmade => (hp.entered call' hmade).mono (List.prefix_append ..)
    · obtain ⟨p, hp⟩ := h.shows m
      refine ⟨p, hp.other (Function.update_of_ne heq ..) (hanswers m heq) rfl ?_⟩
      exact fun hsome => heq (Option.some.inj hsome).symm
  · rw [returned_concat_self]
    exact List.nodup_append.mpr ⟨h.nodup, List.nodup_singleton n, by
      rintro a ha b hb rfl
      exact hn (List.mem_singleton.mp hb ▸ ha)⟩
  · have hold : countAccepted asset l (returnPublish asset s n call) kind = s.published kind := by
      rw [h.published]
      exact countAccepted_congr (fun m hm => hanswers m fun heq => hn (heq ▸ hm)) kind
    have hself : (returnPublish asset s n call).answers n =
        some (.accepted call.command.kind (commandTopic asset)) := Function.update_self ..
    rw [countAccepted, returned_concat_self, List.countP_append, ← countAccepted, hold,
      List.countP_singleton, hself]
    simp only [returnPublish, Function.update_apply, Option.some.injEq, Answer.accepted.injEq,
      and_true, decide_eq_true_eq]
    by_cases hkind : kind = call.command.kind
    · rw [if_pos hkind, if_pos hkind.symm, hkind]
    · rw [if_neg hkind, if_neg (Ne.symm hkind), Nat.add_zero]

/-- A call that raises. -/
theorem AccountInv.fail (h : AccountInv asset l s) {n : Request} {call : Call} (error : String)
    (hcall : s.calls n = some call) :
    AccountInv asset (l ++ [.publishFailed n error]) (failPublish s n error) := by
  obtain ⟨hp, hn⟩ := h.pending hcall
  refine h.of_not_returned rfl (by simp) ?_ hn ?_ ?_
  · rfl
  · intro m hne
    exact ⟨Function.update_of_ne hne .., Function.update_of_ne hne .., rfl⟩
  · refine ⟨.failed call error, Function.update_self .., Function.update_self .., hp.sent, ?_,
      fun error' => ?_, by simp, ?_, by simp⟩
    · rw [mem_returned_concat (by simp)]
      exact iff_of_false hn (by simp)
    · rw [List.mem_append, List.mem_singleton, or_iff_right (hp.not_failed (by simp) error')]
      simp [eq_comm]
    · exact fun call' hmade => (hp.entered call' hmade).mono (List.prefix_append ..)

/-- **The invariant holds after every run.** -/
theorem accountInv_of_run (h : Run (Command.step asset) State.init l s) : AccountInv asset l s := by
  apply h.history (I := AccountInv asset) accountInv_init
  intro l s e t hrun hinv hstep
  rcases step_request hstep with ⟨hnone, hcalls, hanswers, hsent, hpublished⟩ |
    ⟨n, command, rfl, hcalls, hanswers, hclient, rfl⟩ |
    ⟨n, call, rfl, hcalls, hanswers, hclient, rfl⟩ | ⟨n, call, rfl, hcall, rfl⟩ |
    ⟨n, call, error, rfl, hcall, rfl⟩
  · have he : ∀ n, e ≠ .publishReturned n := fun n heq => by cases heq ▸ hnone
    refine ⟨fun n => ?_, ?_, fun kind => ?_⟩
    · obtain ⟨p, hp⟩ := hinv.shows n
      exact ⟨p, hp.other (by rw [hcalls]) (by rw [hanswers]) (by rw [hsent]) (by simp [hnone])⟩
    · rw [returned_concat he]
      exact hinv.nodup
    · rw [hpublished, hinv.published, countAccepted, countAccepted, returned_concat he, hanswers]
  · exact hinv.refuse hrun hcalls hanswers hclient
  · exact hinv.enter hrun hcalls hanswers hclient
  · exact hinv.succeed hcall
  · exact hinv.fail error hcall

/-! ## Clients that are given up -/

/-- What a step does to the stored client: it is kept, forgotten, or that of a new session; and the
client of a new call is the stored one. -/
theorem step_client {e : Event} (h : Command.step asset s e = some t) :
    s.sessions ≤ t.sessions ∧ (∀ c, t.client = some c → s.client = some c ∨ c = s.sessions) ∧
      (t.sent = s.sent ∨ ∃ entry, t.sent = s.sent ++ [entry] ∧ s.client = some entry.client) := by
  rcases step_cases h with ⟨rfl, -, rfl⟩ | ⟨rfl | rfl, rfl⟩ | ⟨c, rfl, -, rfl⟩ | ⟨rfl, rfl⟩ |
    ⟨n, command, rfl, -, -, rfl⟩ | ⟨n, call, rfl, -, rfl⟩ | ⟨n, call, error, rfl, -, rfl⟩
  · exact ⟨Nat.le_succ _, fun c hc => Or.inr (Option.some.inj hc).symm, Or.inl rfl⟩
  -- the client is forgotten
  · exact ⟨le_rfl, fun c hc => absurd hc (by simp [handleDisconnect]), Or.inl rfl⟩
  · exact ⟨le_rfl, fun c hc => absurd hc (by simp [handleDisconnect]), Or.inl rfl⟩
  · exact ⟨le_rfl, fun c hc => Or.inl hc, Or.inl rfl⟩
  · exact ⟨le_rfl, fun c hc => Or.inl hc, Or.inl rfl⟩
  · obtain ⟨-, hclient, hsessions⟩ := enterPublish_session asset s n command
    refine ⟨hsessions.ge, fun c hc => Or.inl (hclient ▸ hc), ?_⟩
    rcases enterPublish_cases asset s n command with ⟨-, heq⟩ | ⟨client, hstored, heq⟩
    · rw [heq]
      exact Or.inl rfl
    · rw [heq]
      exact Or.inr ⟨_, rfl, hstored⟩
  · exact ⟨le_rfl, fun c hc => Or.inl hc, Or.inl rfl⟩
  · exact ⟨le_rfl, fun c hc => absurd hc (by simp [failPublish]), Or.inl rfl⟩

/-- A client that is not stored and belongs to an old session is never used again. -/
theorem retired_of_run {c : Client} (hstored : s.client ≠ some c) (hold : c < s.sessions)
    (h : Run (Command.step asset) s l t) :
    ∃ later, t.sent = s.sent ++ later ∧ ∀ entry ∈ later, entry.client ≠ c := by
  have hinv : t.client ≠ some c ∧ c < t.sessions ∧
      ∃ later, t.sent = s.sent ++ later ∧ ∀ entry ∈ later, entry.client ≠ c := by
    refine h.invariant (I := fun t => t.client ≠ some c ∧ c < t.sessions ∧
      ∃ later, t.sent = s.sent ++ later ∧ ∀ entry ∈ later, entry.client ≠ c) ?_ ?_
    · exact ⟨hstored, hold, [], (List.append_nil _).symm, by simp⟩
    · rintro t e t' ⟨hclient, hlt, later, hsent, hlater⟩ hstep
      obtain ⟨hle, hnew, hentry⟩ := step_client hstep
      refine ⟨?_, hlt.trans_le hle, ?_⟩
      · intro hc
        rcases hnew c hc with hsame | rfl
        · exact hclient hsame
        · exact lt_irrefl _ hlt
      · rcases hentry with hsame | ⟨entry, hconcat, hused⟩
        · exact ⟨later, hsame.trans hsent, hlater⟩
        · refine ⟨later ++ [entry], ?_, ?_⟩
          · rw [hconcat, hsent, List.append_assoc]
          · rw [List.forall_mem_append, List.forall_mem_singleton]
            refine ⟨hlater, ?_⟩
            rintro rfl
            exact hclient hused
  exact hinv.2.2

/-- The session that `run()` is in was opened before. -/
theorem session_lt_of_run (h : Run (Command.step asset) State.init l s) {c : Client}
    (hc : s.task = .iterating c ∨ s.task = .closing c) : c < s.sessions := by
  refine h.invariant (I := fun s => ∀ c, s.task = .iterating c ∨ s.task = .closing c →
    c < s.sessions) ?_ ?_ c hc
  · rintro c (hc | hc) <;> cases hc
  · intro s e t ih hstep c hc
    rcases step_cases hstep with ⟨rfl, -, rfl⟩ | ⟨-, rfl⟩ | ⟨c', rfl, htask, rfl⟩ | ⟨rfl, rfl⟩ |
      ⟨n, command, rfl, -, -, rfl⟩ | ⟨n, call, rfl, -, rfl⟩ | ⟨n, call, error, rfl, -, rfl⟩
    · rcases hc with hc | hc
      · obtain rfl := Task.iterating.inj hc
        exact Nat.lt_succ_self _
      · cases hc
    · rcases hc with hc | hc <;> cases hc
    · rcases hc with hc | hc
      · cases hc
      · obtain rfl := Task.closing.inj hc
        exact ih _ (Or.inl htask)
    · rcases hc with hc | hc <;> cases hc
    · obtain ⟨htask, -, hsessions⟩ := enterPublish_session asset s n command
      rw [htask] at hc
      rw [hsessions]
      exact ih c hc
    · exact ih c hc
    · exact ih c hc

/-- After `run()` has handled the loss of a session, no call is made with its client. -/
theorem sent_of_handled {asset : String} {before after : List Event} {s₀ s : State} {c : Client}
    (h : Run (step asset) State.init (before ++ .sessionHandled :: after) s)
    (hrun : Run (step asset) State.init before s₀) (htask : s₀.task = .closing c) :
    ∃ later, s.sent = s₀.sent ++ later ∧ ∀ entry ∈ later, entry.client ≠ c := by
  obtain ⟨s₀', hrun', hrest⟩ := h.append_inv
  obtain rfl := hrun.det hrun'
  rw [← List.singleton_append] at hrest
  obtain ⟨s₁, hhandled, hafter⟩ := hrest.append_inv
  obtain ⟨s₁', hnil, hstep⟩ := (List.nil_append [Event.sessionHandled] ▸ hhandled).snoc_inv
  obtain rfl := hnil.nil_inv
  simp only [step, htask] at hstep
  obtain rfl := Option.some.inj hstep
  have hgone : (handleDisconnect s₁').client ≠ some c := Option.some_ne_none c ∘ Eq.symm
  obtain ⟨later, hsent, hlater⟩ :=
    retired_of_run hgone (session_lt_of_run hrun (Or.inr htask)) hafter
  exact ⟨later, hsent, hlater⟩

/-- What was sent is a command that was posted. -/
theorem exists_post_of_sent (h : Run (Command.step asset) State.init l s) {entry : Sent}
    (hentry : entry ∈ s.sent) : ∃ command, .post entry.request command ∈ l ∧
      entry.topic = commandTopic asset ∧ entry.payload = command.modelDumpJson := by
  obtain ⟨p, hp⟩ := (accountInv_of_run h).shows entry.request
  have hmem : entry ∈ (p.made.map (Call.sent asset entry.request)).toList := by
    rw [← hp.sent]
    exact List.mem_filter.mpr ⟨hentry, by simp⟩
  obtain ⟨call, hmade, heq⟩ := Option.map_eq_some_iff.mp (Option.mem_toList.mp hmem)
  obtain ⟨before, -, hbefore, -⟩ := hp.entered call hmade
  rw [← heq]
  exact ⟨call.command, hbefore.subset (by simp [Call.sent]), rfl, rfl⟩

/-- What was answered with 202 was posted and sent. -/
theorem exists_sent_of_accepted (h : Run (Command.step asset) State.init l s) {n : Request}
    {kind : CommandKind} {topic : String}
    (hanswer : s.answers n = some (.accepted kind topic)) :
    ∃ command, .post n command ∈ l ∧ command.kind = kind ∧ topic = commandTopic asset ∧
      ∃ entry ∈ s.sent, entry.topic = topic ∧ entry.payload = command.modelDumpJson := by
  obtain ⟨p, hp⟩ := (accountInv_of_run h).shows n
  rw [hp.answers] at hanswer
  cases p with
  | returned call =>
      obtain ⟨rfl, rfl⟩ := Answer.accepted.inj (Option.some.inj hanswer)
      obtain ⟨before, -, hbefore, -⟩ := hp.entered call rfl
      have hmem : call.sent asset n ∈ s.sent.filter fun entry => entry.request = n := by
        rw [hp.sent]
        exact List.mem_singleton_self _
      exact ⟨call.command, hbefore.subset (by simp), rfl, rfl, call.sent asset n,
        List.mem_of_mem_filter hmem, rfl, rfl⟩
  | _ => cases hanswer

end invariant

/-! ## The accounts -/

/-- The accounts of the publisher after a run. -/
structure Accounted (asset : String) (l : List Event) (s : State) : Prop where
  /-- A request makes at most one call of `client.publish`. -/
  once : ∀ n, (s.sent.filter fun entry => entry.request = n).length ≤ 1
  /-- It makes it with its own command, on the client that was stored when it entered. -/
  own : ∀ entry ∈ s.sent, ∃ before s₀ command, before ++ [.post entry.request command] <+: l ∧
    Run (step asset) State.init before s₀ ∧ s₀.client = some entry.client ∧
    entry.topic = commandTopic asset ∧ entry.payload = command.modelDumpJson
  /-- 202 is the answer exactly to the calls that returned, with the kind of the command. -/
  accepted : ∀ n, n ∈ returned l ↔ ∃ command, .post n command ∈ l ∧
    s.answers n = some (.accepted command.kind (commandTopic asset))
  /-- Every other answer is 503. -/
  unavailable : ∀ n answer, s.answers n = some answer → n ∉ returned l →
    ∃ detail, answer = .unavailable detail
  /-- A call that raised is over, and its request is answered with 503 and the error. -/
  failed : ∀ n error, .publishFailed n error ∈ l →
    s.calls n = none ∧ s.answers n = some (.unavailable error)
  /-- A request whose call has not returned: its call raised, or no client was stored when it
  entered, and it is answered with 503; or it is suspended in its call, which is not over. -/
  otherwise : ∀ n command, .post n command ∈ l → n ∉ returned l →
    (∃ error, .publishFailed n error ∈ l ∧ s.answers n = some (.unavailable error)) ∨
    (Refused asset l n ∧ s.answers n = some (.unavailable "MQTT broker unavailable")) ∨
    (∃ call, s.calls n = some call ∧ s.answers n = none ∧ ∀ error, .publishFailed n error ∉ l)
  /-- A command is kept only while its call is suspended: it is that of a call which was made, has
  neither returned nor raised, and whose request is not answered. -/
  kept : ∀ n call, s.calls n = some call → .post n call.command ∈ l ∧ call.sent asset n ∈ s.sent ∧
    n ∉ returned l ∧ (∀ error, .publishFailed n error ∉ l) ∧ s.answers n = none
  /-- No call returns twice. -/
  nodup : (returned l).Nodup
  /-- `PUBLISHED` counts the calls that returned, by kind. -/
  counted : ∀ kind, s.published kind = countAccepted asset l s kind
  /-- Once `run()` has handled the loss of a session, its client is not used again. -/
  retired : ∀ before after s₀ c, l = before ++ .sessionHandled :: after →
    Run (step asset) State.init before s₀ → s₀.task = .closing c →
    ∃ later, s.sent = s₀.sent ++ later ∧ ∀ entry ∈ later, entry.client ≠ c

/-- **Fail, don't buffer.** In every interleaving of `run()` with any number of requests, each
request makes at most one call of `client.publish`, for its own command and on the client that was
stored; it is answered with 202 exactly if that call returned, and with 503 as soon as it raised or
where no client was stored; the counter counts the calls that returned; the publisher keeps a
command only while its call is suspended; and a session that `run()` has given up is not used again.
Source: `publisher.py`, `Publisher`; `api.py`, `command` -/
theorem commands_not_buffered {asset : String} {l : List Event} {s : State}
    (h : Run (step asset) State.init l s) : Accounted asset l s := by
  have hinv := accountInv_of_run h
  refine
    { once := ?once, own := ?own, accepted := ?accepted, unavailable := ?unavailable
      failed := ?failed, otherwise := ?otherwise, kept := ?kept, nodup := hinv.nodup
      counted := hinv.published
      retired := fun before after s₀ c hl hrun htask => sent_of_handled (hl ▸ h) hrun htask }
  case once =>
    intro n
    obtain ⟨p, hp⟩ := hinv.shows n
    rw [hp.sent]
    cases p.made <;> simp
  case own =>
    intro entry hentry
    obtain ⟨p, hp⟩ := hinv.shows entry.request
    have hmem : entry ∈ (p.made.map (Call.sent asset entry.request)).toList := by
      rw [← hp.sent]
      exact List.mem_filter.mpr ⟨hentry, by simp⟩
    obtain ⟨call, hmade, heq⟩ := Option.map_eq_some_iff.mp (Option.mem_toList.mp hmem)
    obtain ⟨before, s₀, hp, hrun, hclient⟩ := hp.entered call hmade
    rw [← heq]
    exact ⟨before, s₀, call.command, hp, hrun, hclient, rfl, rfl⟩
  case accepted =>
    intro n
    obtain ⟨p, hp⟩ := hinv.shows n
    rw [hp.listed, hp.answers]
    constructor
    · rintro ⟨call, rfl⟩
      obtain ⟨before, -, hbefore, -⟩ := hp.entered call rfl
      exact ⟨call.command, hbefore.subset (by simp), rfl⟩
    · rintro ⟨command, -, hanswer⟩
      cases p with
      | returned call => exact ⟨call, rfl⟩
      | _ => cases hanswer
  case unavailable =>
    intro n answer hanswer hn
    obtain ⟨p, hp⟩ := hinv.shows n
    rw [hp.answers] at hanswer
    cases p with
    | refused => exact ⟨_, (Option.some.inj hanswer).symm⟩
    | failed call error => exact ⟨_, (Option.some.inj hanswer).symm⟩
    | returned call => exact absurd (hp.listed.mpr ⟨call, rfl⟩) hn
    | _ => cases hanswer
  case failed =>
    intro n error hmem
    obtain ⟨p, hp⟩ := hinv.shows n
    obtain ⟨call, rfl⟩ := (hp.failed error).mp hmem
    exact ⟨hp.calls, hp.answers⟩
  case otherwise =>
    intro n command hmem hn
    obtain ⟨p, hp⟩ := hinv.shows n
    have hposted := hp.posted command hmem
    rw [hp.calls, hp.answers]
    cases p with
    | idle => exact absurd rfl hposted
    | refused => exact Or.inr (Or.inl ⟨hp.refused rfl, rfl⟩)
    | pending call => exact Or.inr (Or.inr ⟨call, rfl, rfl, hp.not_failed (by simp)⟩)
    | returned call => exact absurd (hp.listed.mpr ⟨call, rfl⟩) hn
    | failed call error => exact Or.inl ⟨error, (hp.failed error).mpr ⟨call, rfl⟩, rfl⟩
  case kept =>
    intro n call hcall
    obtain ⟨hp, hn⟩ := hinv.pending hcall
    obtain ⟨before, -, hbefore, -⟩ := hp.entered call rfl
    have hsent : call.sent asset n ∈ s.sent.filter fun entry => entry.request = n := by
      rw [hp.sent]
      exact List.mem_singleton_self _
    exact ⟨hbefore.subset (by simp), List.mem_of_mem_filter hsent, hn, hp.not_failed (by simp),
      hp.answers⟩

end accounting

section platform

attribute [local instance] CPython.series Pydantic.decimal

/-- A request whose call returns, one whose call raises, one that finds no client, and one that is
still in its call, before the session is lost and given up. -/
def goHomeRun : List Event :=
  [.connected, .post 0 goHome, .post 1 goHome, .post 3 goHome, .publishReturned 0,
    .publishFailed 1 "Operation timed out", .post 2 goHome, .sessionLost, .sessionHandled]

/-- Four requests: one accepted, one refused by its call, one that finds no client, and one still in
its call. -/
theorem commands_not_buffered_goHome :
    ∃ s, Run (step "ur5") State.init goHomeRun s ∧ s.sent.length = 3 ∧
      s.answers 0 = some (.accepted .home (commandTopic "ur5")) ∧
      s.answers 1 = some (.unavailable "Operation timed out") ∧ s.calls 1 = none ∧
      s.answers 2 = some (.unavailable "MQTT broker unavailable") ∧
      s.answers 3 = none ∧ s.calls 3 ≠ none ∧ s.published .home = 1 ∧
      Accounted "ur5" goHomeRun s :=
  ⟨_, .of_exec rfl, rfl, rfl, rfl, rfl, rfl, rfl, Option.some_ne_none _, rfl,
    commands_not_buffered (.of_exec rfl)⟩

end platform

end TwinServices.Command

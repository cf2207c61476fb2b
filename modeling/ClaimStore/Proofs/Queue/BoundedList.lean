import ClaimStore.Script.Queue
/-!
# A queue used by one thread is a bounded list

A queue's contract reads as a list `q` of the values queued, oldest first, and a bound `b`: an
offer, waiting or not, appends its value when `q` is shorter than `b` and hands it back
otherwise; a poll or a peek answers the head and a poll drops it; a drain takes up to `max`
values from the front; a clear empties the list; `len` and `is_empty` read it. `Call.onList`
says this, and `step_call` shows that a session step answers each call as the list does when no
second thread is about: a waiting offer or drain then waits for nothing and gives up or goes on.

Along a run of such calls nothing is lost and nothing comes twice: the values taken out (the
ones a poll or a drain returns and the ones a clear drops, call after call), followed by those
still queued, are the offers let in, in order (`runList_conserves`); this is the rule of
`Call.conserves` for one call, carried along the run.

Main statement: `one_thread_queue_is_bounded_list`.
-/

set_option autoImplicit false

namespace ClaimStore.Fifo

theorem offer_cases {α : Type} (q : Fifo α) (x : α) :
    (q.items.length < q.bound ∧
      ∃ q', q.offer x = some q' ∧ q'.items = q.items ++ [x] ∧ q'.bound = q.bound) ∨
    (q.bound ≤ q.items.length ∧ q.offer x = none) := by
  by_cases h : q.items.length < q.bound
  · refine .inl ⟨h, ?_⟩
    rw [offer, dif_pos h]
    exact ⟨_, rfl, rfl, rfl⟩
  · exact .inr ⟨by omega, by simp [offer, h]⟩

end ClaimStore.Fifo

namespace ClaimStore.Script.QueueSession

open ClaimStore.Text

/-! ## Calls -/

/-- A call of a queue's interface by the thread that uses it. Counts and waits are 64-bit words,
waits in milliseconds. -/
inductive Call where
  | offer (v : Json)
  | offerTimeout (v : Json) (timeoutMs : UInt64)
  | poll
  | peek
  | drainTimeout (max timeoutMs : UInt64)
  | clear
  | len
  | isEmpty

/-- The session step that makes a call. -/
def Call.request : Call → Json
  | .offer v => .obj [("op", .str "offer"), ("value", v)]
  | .offerTimeout v t =>
    .obj [("op", .str "offer_timeout"), ("value", v), ("timeout_ms", .nat t.toNat)]
  | .poll => .obj [("op", .str "poll")]
  | .peek => .obj [("op", .str "peek")]
  | .drainTimeout m t =>
    .obj [("op", .str "drain_wait"), ("max", .nat m.toNat), ("timeout_ms", .nat t.toNat)]
  | .clear => .obj [("op", .str "clear")]
  | .len => .obj [("op", .str "len")]
  | .isEmpty => .obj [("op", .str "is_empty")]

/-! ## The contract: a bounded list -/

/-- What a call answers on the list `q` of queued values bounded by `b`, and the list it
leaves. -/
def Call.onList (b : Nat) (q : List Json) : Call → Json × List Json
  | .offer v | .offerTimeout v _ =>
    if q.length < b then (obj [("accepted", .bool true)], q ++ [v])
    else (obj [("accepted", .bool false), ("returned", v)], q)
  | .poll => (obj [("value", q.head?.getD .null)], q.tail)
  | .peek => (obj [("value", q.head?.getD .null)], q)
  | .drainTimeout max _ => (obj [("values", .arr (q.take max.toNat))], q.drop max.toNat)
  | .clear => (done, [])
  | .len => (obj [("len", .nat q.length)], q)
  | .isEmpty => (obj [("is_empty", .bool q.isEmpty)], q)

/-- The value a call lets into the list: an offered one, when there is room. -/
def Call.admitted (b : Nat) (q : List Json) : Call → List Json
  | .offer v | .offerTimeout v _ => if q.length < b then [v] else []
  | _ => []

/-- The values a call returns from the list, front first: a poll's head, a drain's values. -/
def Call.returned (q : List Json) : Call → List Json
  | .poll => q.take 1
  | .drainTimeout max _ => q.take max.toNat
  | _ => []

/-- The values a call drops from the list: all of them, for a clear. -/
def Call.dropped (q : List Json) : Call → List Json
  | .clear => q
  | _ => []

theorem Call.onList_length_le (b : Nat) {q : List Json} (hq : q.length ≤ b) (c : Call) :
    (c.onList b q).2.length ≤ b := by
  cases c with
  | offer v | offerTimeout v _ =>
    by_cases hlen : q.length < b
    · simp only [onList, if_pos hlen, List.length_append, List.length_singleton]
      omega
    · simp only [onList, if_neg hlen]
      exact hq
  | poll => simp only [onList, List.length_tail]; omega
  | drainTimeout max _ => simp only [onList, List.length_drop]; omega
  | clear => simp [onList]
  | peek | len | isEmpty => exact hq

theorem Call.conserves (b : Nat) (q : List Json) (c : Call) :
    q ++ c.admitted b q = c.returned q ++ c.dropped q ++ (c.onList b q).2 := by
  cases c with
  | offer v | offerTimeout v _ =>
    by_cases hlen : q.length < b <;> simp [admitted, returned, dropped, onList, hlen]
  | poll =>
    cases q <;> simp [admitted, returned, dropped, onList]
  | drainTimeout max _ => simp [admitted, returned, dropped, onList]
  | clear => simp [admitted, returned, dropped, onList]
  | peek | len | isEmpty => simp [admitted, returned, dropped, onList]

/-! ## Runs of calls on a list -/

/-- A run of calls on a bounded list: the answers given; the values let in, returned, dropped,
and taken out (returned or dropped, in the order of the calls); and the list left. -/
structure ListRun where
  answers : List Json
  admitted : List Json
  returned : List Json
  dropped : List Json
  removed : List Json
  queued : List Json

/-- Makes calls one after another on the list `q` bounded by `b`. -/
def runList (b : Nat) : List Json → List Call → ListRun
  | q, [] => ⟨[], [], [], [], [], q⟩
  | q, c :: cs =>
    let r := runList b (c.onList b q).2 cs
    { answers := (c.onList b q).1 :: r.answers
      admitted := c.admitted b q ++ r.admitted
      returned := c.returned q ++ r.returned
      dropped := c.dropped q ++ r.dropped
      removed := c.returned q ++ c.dropped q ++ r.removed
      queued := r.queued }

theorem runList_length_le (b : Nat) (cs : List Call) :
    ∀ {q : List Json}, q.length ≤ b → (runList b q cs).queued.length ≤ b := by
  induction cs with
  | nil => exact fun hq => hq
  | cons c cs ih => exact fun hq => ih (c.onList_length_le b hq)

theorem runList_conserves (b : Nat) (cs : List Call) :
    ∀ q : List Json, q ++ (runList b q cs).admitted = (runList b q cs).removed ++ (runList b q cs).queued := by
  induction cs with
  | nil => simp [runList]
  | cons c cs ih =>
    intro q
    have hstep := c.conserves b q
    have hrest := ih (c.onList b q).2
    simp only [runList]
    calc q ++ (c.admitted b q ++ (runList b (c.onList b q).2 cs).admitted)
        = c.returned q ++ c.dropped q ++
            ((c.onList b q).2 ++ (runList b (c.onList b q).2 cs).admitted) := by
          rw [← List.append_assoc, hstep, List.append_assoc]
      _ = c.returned q ++ c.dropped q ++ (runList b (c.onList b q).2 cs).removed ++
            (runList b (c.onList b q).2 cs).queued := by
          simp only [hrest, List.append_assoc]

theorem runList_removed_perm (b : Nat) (cs : List Call) :
    ∀ q : List Json, (runList b q cs).removed.Perm ((runList b q cs).returned ++ (runList b q cs).dropped) := by
  induction cs with
  | nil => simp [runList]
  | cons c cs ih =>
    intro q
    have hrest := ih (c.onList b q).2
    simp only [runList, List.append_assoc]
    refine List.Perm.append_left _ ((hrest.append_left _).trans ?_)
    exact List.perm_append_comm_assoc _ _ _

/-! ## Sessions make the calls -/

theorem settle_of_alone {s : QueueSession} (h : s.helper = .none) (deadline : Nat) :
    s.settle deadline = s := by
  simp [settle, h]

theorem asCount_word (k : String) (t : UInt64) : asCount k (.int t.toNat) = pure t.toNat := by
  have ht := t.toNat_lt
  simp only [asCount, Int.natCast_nonneg, Int.toNat_natCast, true_and]
  rw [if_pos (by omega)]

theorem offerWaiting_of_alone {s : QueueSession} (h : s.helper = .none) (v : Json) (t : Nat) :
    s.offerWaiting v t = match s.queue.offer v with
      | some q => (obj [("accepted", .bool true)], { s with queue := q })
      | none => (obj [("accepted", .bool false), ("returned", v)], { s with now := s.now + t }) := by
  cases hq : s.queue.offer v <;> simp only [offerWaiting, settle_of_alone h, ite_self, hq]

theorem drainWaiting_of_alone {s : QueueSession} (h : s.helper = .none) (max t : Nat) :
    ∃ now, s.drainWaiting max t = (obj [("values", .arr (s.queue.items.take max))],
      { s with queue := (s.queue.drain max).2, now }) := by
  unfold drainWaiting
  simp only [settle_of_alone h, ite_self]
  split
  · exact ⟨s.now + t, rfl⟩
  · exact ⟨s.now, rfl⟩

/-- What a step makes of a call's request when no second thread is about: the call, made on
the session's queue. -/
theorem step_request {s : QueueSession} (h : s.helper = .none) (c : Call) :
    step s c.request = pure (match c with
      | .offer v => match s.queue.offer v with
        | some q' => (obj [("accepted", .bool true)], { s with queue := q' })
        | none => (obj [("accepted", .bool false), ("returned", v)], s)
      | .offerTimeout v t => s.offerWaiting v t.toNat
      | .poll => (obj [("value", s.queue.peek.getD .null)], { s with queue := s.queue.poll.2 })
      | .peek => (obj [("value", s.queue.peek.getD .null)], s)
      | .drainTimeout m t => s.drainWaiting m.toNat t.toNat
      | .clear => (done, { s with queue := s.queue.clear })
      | .len => (obj [("len", .nat s.queue.size)], s)
      | .isEmpty => (obj [("is_empty", .bool s.queue.isEmpty)], s)) := by
  have hsettle := settle_of_alone h s.now
  cases c with
  | offer v =>
    simp [step, Call.request, hsettle, text, need, opt, Json.field?, asText, offered]
    cases s.queue.offer v <;> rfl
  | _ =>
    simp [step, Call.request, hsettle, text, need, opt, Json.field?, asText, offered, count,
      Json.nat, asCount_word]

theorem offer_on_the_spot {s r : QueueSession} (h : s.helper = .none) (hr : r.helper = .none)
    (hq : r.queue = s.queue) (v : Json) :
    ∃ s' : QueueSession, (match s.queue.offer v with
        | some q => (obj [("accepted", .bool true)], { s with queue := q })
        | none => (obj [("accepted", .bool false), ("returned", v)], r)) =
        (((Call.offer v).onList s.queue.bound s.queue.items).1, s') ∧
      s'.helper = .none ∧ s'.queue.bound = s.queue.bound ∧
      s'.queue.items = ((Call.offer v).onList s.queue.bound s.queue.items).2 := by
  rcases Fifo.offer_cases s.queue v with ⟨hlt, q', hoffer, hitems, hbound⟩ | ⟨hle, hoffer⟩
  · exact ⟨{ s with queue := q' }, by simp [Call.onList, hoffer, hlt], h, hbound,
      by simp [Call.onList, hlt, hitems]⟩
  · have hfull : ¬ s.queue.items.length < s.queue.bound := Nat.not_lt.2 hle
    exact ⟨r, by simp [Call.onList, hoffer, hfull], hr, by rw [hq],
      by simp [Call.onList, hfull, hq]⟩

/-- With no second thread about, a step answers a call as the list does, and leaves the queue
holding the list the call leaves, under the same bound and still alone. -/
theorem step_call {s : QueueSession} (h : s.helper = .none) (c : Call) :
    ∃ s' : QueueSession, step s c.request = pure ((c.onList s.queue.bound s.queue.items).1, s') ∧
      s'.helper = .none ∧ s'.queue.bound = s.queue.bound ∧
      s'.queue.items = (c.onList s.queue.bound s.queue.items).2 := by
  rw [step_request h]
  cases c with
  | offer v =>
    obtain ⟨s', hs', rest⟩ := offer_on_the_spot h h rfl v
    exact ⟨s', congrArg pure hs', rest⟩
  | offerTimeout v t =>
    -- the wait runs out with the queue as it was: the offer is decided on the spot
    dsimp only
    rw [offerWaiting_of_alone h]
    obtain ⟨s', hs', rest⟩ := offer_on_the_spot (r := { s with now := s.now + t.toNat }) h h rfl v
    exact ⟨s', congrArg pure hs', rest⟩
  | poll => exact ⟨{ s with queue := s.queue.poll.2 }, by simp [Call.onList, Fifo.peek], h, rfl, rfl⟩
  | peek => exact ⟨s, by simp [Call.onList, Fifo.peek], h, rfl, rfl⟩
  | drainTimeout m t =>
    obtain ⟨now, hdrain⟩ := drainWaiting_of_alone h m.toNat t.toNat
    exact ⟨{ s with queue := (s.queue.drain m.toNat).2, now }, by simp [Call.onList, hdrain], h,
      rfl, rfl⟩
  | clear => exact ⟨{ s with queue := s.queue.clear }, by simp [Call.onList], h, rfl, rfl⟩
  | len => exact ⟨s, by simp [Call.onList, Fifo.size], h, rfl, rfl⟩
  | isEmpty => exact ⟨s, by simp [Call.onList, Fifo.isEmpty], h, rfl, rfl⟩

theorem runSteps_cons_of_ok {σ : Type} {step : σ → Json → Read (Json × σ)} {s s' : σ} {j a : Json}
    (h : step s j = .ok (a, s')) (js : List Json) :
    runSteps step s (j :: js) = a :: runSteps step s' js := by
  simp [runSteps, h]

theorem runSteps_calls (cs : List Call) :
    ∀ {s : QueueSession}, s.helper = .none →
      runSteps step s (cs.map Call.request) = (runList s.queue.bound s.queue.items cs).answers := by
  induction cs with
  | nil => intro s _; rfl
  | cons c cs ih =>
    intro s h
    obtain ⟨s', hstep, hs', hbound, hitems⟩ := step_call h c
    rw [List.map_cons, runSteps_cons_of_ok hstep, ih hs', hbound, hitems]
    rfl

/-- A queue of capacity `cap` that one thread calls, with no second thread about, answers every
sequence of calls as a list bounded by `max cap 1` does; that list never passes its bound; and
the values taken out (by polls and drains returned, by clears dropped, in the order of the
calls), then those still queued, are the offers let in, in order, while the returned ones, the
dropped ones and the queued ones together are those offers, each once. -/
theorem one_thread_queue_is_bounded_list (cap now : Nat) (calls : List Call) :
    runSteps step ⟨Fifo.empty cap, now, .none⟩ (calls.map Call.request) =
        (runList (max cap 1) [] calls).answers ∧
      (runList (max cap 1) [] calls).queued.length ≤ max cap 1 ∧
      (runList (max cap 1) [] calls).removed ++ (runList (max cap 1) [] calls).queued =
        (runList (max cap 1) [] calls).admitted ∧
      ((runList (max cap 1) [] calls).returned ++ (runList (max cap 1) [] calls).dropped ++
        (runList (max cap 1) [] calls).queued).Perm (runList (max cap 1) [] calls).admitted := by
  have hconserves := runList_conserves (max cap 1) calls []
  rw [List.nil_append] at hconserves
  refine ⟨runSteps_calls calls rfl, runList_length_le (max cap 1) calls (Nat.zero_le _),
    hconserves.symm, ?_⟩
  rw [hconserves]
  exact ((runList_removed_perm (max cap 1) calls []).append_right _).symm

end ClaimStore.Script.QueueSession

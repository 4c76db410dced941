import Eva01.Hook.Calls
import Eva01.Timer.OneShot

/-!
The timers, while the requests of one thread are served.

What an interposed function asks of the scheduler is its trace (`Hook.Calls`). Here the requests of
a thread meet the `TimerManager`: `addTimer` and `addConditionTimer` make a timer and put it into
the set, in two sections, and `timer->cancel()` takes it out; the other threads call the
`TimerManager` in between as they like (`Served`). The timers made here are in nobody else's hands,
so the others neither cancel nor refresh them.

Two results carry over to the interposed functions. A timer is collected at its deadline at the
earliest, and can be collected then (`neverEarly_iff`). And if every timer is cancelled before the
next is made, and the last one at the end, then none is left in the set (`none_left`).

Types: `γ` for the functions of the timers.
-/

namespace Eva01.Hook

open Eva01.Lib Eva01.Lib.Runs
open Eva01.TimerManager (Threads Act Record Call Stepped InOrder Collects OneShot Queued Gone)

variable {γ : Type*}

/-! ### Requests and timers -/

/-- The period of the timer that a request makes. -/
def Request.period : Request → Option ℕ
  | .iom (.addTimer period) => some period
  | .iom (.addConditionTimer ms _ _) => some ms
  | _ => none

/-- A timer that was made: the clock reading of its constructor, and its period. -/
structure Made where
  timer : ℕ
  began : ℕ
  period : ℕ
  deriving DecidableEq, Repr

def Made.deadline (m : Made) : ℕ := u64 (m.began + m.period)

structure Served (γ : Type*) where
  threads : Threads γ
  /-- What the thread has yet to ask. -/
  todo : List Request
  /-- A timer that is made and not yet in the set. -/
  pending : Option ℕ := none
  /-- The variable `timer` of the function. -/
  timer : Option ℕ := none
  made : List Made := []

/-- A section of another thread, or the next section of this one with the clock reading it makes and
the function it gives to a timer. -/
inductive ServedAct (γ : Type*)
  | other (a : Act γ)
  | own (now : ℕ) (g : γ)

namespace Served

/-- The others have no pointer to the timers made here, and do not do this thread's sections. -/
def foreign (s : Served γ) : Act γ → Bool
  | .cancel i | .refresh i _ => s.made.all fun m => m.timer ≠ i
  | .next k => s.pending.all fun i => s.threads.calls[k]? ≠ some (.insert i)
  | _ => true

/-- The next section of this thread. -/
def serve (addr : ℕ → ℕ) (s : Served γ) (now : ℕ) (g : γ) : Option (Served γ) :=
  match s.pending with
  | some i =>
      (s.threads.step addr (.next (s.threads.calls.idxOf (.insert i)))).map fun threads =>
        { s with threads := threads, pending := none }
  | none =>
      match s.todo with
      | [] => none
      | q :: todo =>
          match q.period with
          | some period =>
              let i := s.threads.mgr.fresh
              (s.threads.step addr (.addTimer now period g false)).map fun threads =>
                { threads := threads, todo := todo, pending := some i, timer := some i
                  made := s.made ++ [⟨i, now, period⟩] }
          | none =>
              if q = .iom .timerCancel then
                s.timer.bind fun i => (s.threads.step addr (.cancel i)).map fun threads =>
                  { s with threads := threads, todo := todo, timer := none }
              else some { s with todo := todo }

def step (addr : ℕ → ℕ) (s : Served γ) : ServedAct γ → Option (Served γ)
  | .other a =>
      if s.foreign a then (s.threads.step addr a).map fun threads => { s with threads := threads }
      else none
  | .own now g => s.serve addr now g

/-- The thread has asked for all, and is through. -/
def Through (s : Served γ) : Prop := s.todo = [] ∧ s.pending = none

end Served

/-- What a step can do. -/
inductive ServedStep (addr : ℕ → ℕ) (s : Served γ) : Served γ → Prop
  | other {a : Act γ} {threads : Threads γ} : s.foreign a = true →
      s.threads.step addr a = some threads → ServedStep addr s { s with threads := threads }
  | insert {i : ℕ} {threads : Threads γ} : s.pending = some i →
      s.threads.step addr (.next (s.threads.calls.idxOf (.insert i))) = some threads →
      ServedStep addr s { s with threads := threads, pending := none }
  | make {q : Request} {todo : List Request} {now period : ℕ} {g : γ} {threads : Threads γ} :
      s.pending = none → s.todo = q :: todo → q.period = some period →
      s.threads.step addr (.addTimer now period g false) = some threads →
      ServedStep addr s
        { threads := threads, todo := todo, pending := some s.threads.mgr.fresh
          timer := some s.threads.mgr.fresh, made := s.made ++ [⟨s.threads.mgr.fresh, now, period⟩] }
  | cancel {i : ℕ} {todo : List Request} {threads : Threads γ} : s.pending = none →
      s.todo = .iom .timerCancel :: todo → s.timer = some i →
      s.threads.step addr (.cancel i) = some threads →
      ServedStep addr s { s with threads := threads, todo := todo, timer := none }
  | skip {q : Request} {todo : List Request} : s.pending = none → s.todo = q :: todo →
      q.period = none → q ≠ .iom .timerCancel → ServedStep addr s { s with todo := todo }

theorem Served.step_inv {addr : ℕ → ℕ} {s s' : Served γ} {a : ServedAct γ}
    (h : s.step addr a = some s') : ServedStep addr s s' := by
  cases a with
  | other a =>
    simp only [step] at h
    split at h
    · obtain ⟨threads, hth, rfl⟩ := Option.map_eq_some_iff.1 h
      exact .other ‹_› hth
    · cases h
  | own now g =>
    simp only [step, serve] at h
    split at h
    · obtain ⟨threads, hth, rfl⟩ := Option.map_eq_some_iff.1 h
      exact .insert ‹_› hth
    · split at h
      · cases h
      · split at h
        · obtain ⟨threads, hth, rfl⟩ := Option.map_eq_some_iff.1 h
          exact .make ‹_› ‹_› ‹_› hth
        · split at h
          · rename_i hq
            subst hq
            obtain ⟨i, hi, h⟩ := Option.bind_eq_some_iff.1 h
            obtain ⟨threads, hth, rfl⟩ := Option.map_eq_some_iff.1 h
            exact .cancel ‹_› ‹_› hi hth
          · cases h
            exact .skip ‹_› ‹_› ‹_› ‹_›

/-! ### Deadlines -/

section Deadlines

variable {addr : ℕ → ℕ} {s s' : Served γ} {th : Threads γ} {reqs : List Request}

/-- The requests `reqs` are served, by timers that calls have led to. -/
def Serves (addr : ℕ → ℕ) (th : Threads γ) (reqs : List Request) (s : Served γ) : Prop :=
  Reach (Served.step addr) Free { threads := th, todo := reqs } s

/-- The timers made here keep their deadlines. -/
structure Punctual (addr : ℕ → ℕ) (s : Served γ) : Prop where
  reach : Reach (Threads.step addr) Free {} s.threads
  oneShot : ∀ m ∈ s.made, OneShot m.timer m.deadline s.threads

theorem Punctual.step (h : Punctual addr s) (hs : ServedStep addr s s') : Punctual addr s' := by
  have hkeep : ∀ {a : Act γ} {th : Threads γ}, s.threads.step addr a = some th →
      (∀ m ∈ s.made, ∀ now, a ≠ .refresh m.timer now) →
      ∀ m ∈ s.made, OneShot m.timer m.deadline th :=
    fun hth ha m hm => (h.oneShot m hm).step (ha m hm) (TimerManager.step_inv hth)
  cases hs with
  | @other a th hf hth =>
    refine ⟨h.reach.tail trivial hth, hkeep hth fun m hm now ha => ?_⟩
    subst ha
    simp only [Served.foreign, List.all_eq_true, decide_eq_true_eq] at hf
    exact hf m hm rfl
  | insert hp hth => exact ⟨h.reach.tail trivial hth, hkeep hth (by simp)⟩
  | make hp htodo hq hth =>
    refine ⟨h.reach.tail trivial hth, fun m hm => ?_⟩
    rcases List.mem_append.1 hm with hm | hm
    · exact hkeep hth (by simp) m hm
    · rw [List.mem_singleton.1 hm]
      exact OneShot.make (Collects.of_reach h.reach) hth
  | cancel hp htodo ht hth => exact ⟨h.reach.tail trivial hth, hkeep hth (by simp)⟩
  | skip => exact ⟨h.reach, h.oneShot⟩

theorem Punctual.of_serves (hth : Reach (Threads.step addr) Free {} th)
    (h : Serves addr th reqs s) : Punctual addr s :=
  Reach.inv h ⟨hth, by simp⟩ fun _ hx _ hs => hx.step (Served.step_inv hs)

theorem Serves.period (h : Serves addr th reqs s) :
    ∀ m ∈ s.made, ∃ q ∈ reqs, q.period = some m.period := by
  have hinv : (∀ q ∈ s.todo, q ∈ reqs) ∧ ∀ m ∈ s.made, ∃ q ∈ reqs, q.period = some m.period := by
    refine Reach.inv (P := fun s : Served γ => (∀ q ∈ s.todo, q ∈ reqs) ∧
      ∀ m ∈ s.made, ∃ q ∈ reqs, q.period = some m.period) h ⟨fun _ hq => hq, by simp⟩ ?_
    rintro s s' a - ⟨htodo, hmade⟩ - hs
    have htail : ∀ {q : Request} {todo : List Request}, s.todo = q :: todo → ∀ q' ∈ todo, q' ∈ reqs :=
      fun heq q' hq' => htodo q' (heq ▸ List.mem_cons_of_mem _ hq')
    cases Served.step_inv hs with
    | other | insert => exact ⟨htodo, hmade⟩
    | @make q todo now period g threads hp heq hq =>
      refine ⟨htail heq, fun m hm => ?_⟩
      rcases List.mem_append.1 hm with hm | hm
      · exact hmade m hm
      · rw [List.mem_singleton.1 hm]
        exact ⟨q, htodo q (heq ▸ List.mem_cons_self), hq⟩
    | cancel hp heq => exact ⟨htail heq, hmade⟩
    | skip hp heq => exact ⟨htail heq, hmade⟩
  exact hinv.2

/-- A request that makes no timer and cancels none. -/
def Request.idle (q : Request) : Prop := q.period = none ∧ q ≠ .iom .timerCancel

lemma serves_skip (g : γ) {pre : List Request} (hpre : ∀ q ∈ pre, q.idle) (rest : List Request) :
    Serves addr th (pre ++ rest) { threads := th, todo := rest } := by
  induction pre with
  | nil => exact .refl
  | cons q pre ih =>
    obtain ⟨hq, hne⟩ := hpre q List.mem_cons_self
    have hstep : Served.step addr { threads := th, todo := q :: (pre ++ rest) } (.own 0 g) =
        some { threads := th, todo := pre ++ rest } := by
      simp [Served.step, Served.serve, hq, hne]
    exact (Reach.refl.tail trivial hstep).trans
      (ih fun q' hq' => hpre q' (List.mem_cons_of_mem _ hq'))

lemma exists_poll {i r : ℕ} (hp : s.pending = none) (hi : i ∈ s.threads.mgr.expired r) :
    ∃ s', Reach (Served.step addr) Free s s' ∧ s'.made = s.made ∧
      .collect i r ∈ s'.threads.log := by
  have ht := TimerManager.hasTimers_of_mem (TimerManager.mem_expired.1 hi).1
  have hrun : run (Served.step addr) (fun _ _ => true) s
      [.other (.getExpiredFuncs r), .other (.next 0), .other (.next 0)] =
      some { s with threads := { mgr := (s.threads.mgr.getExpiredFuncs addr r).1
                                 calls := s.threads.calls
                                 log := s.threads.log ++
                                   (s.threads.mgr.expired r).map fun i => .collect i r } } := by
    simp [run, Served.step, Served.foreign, Threads.step, Threads.proceed, hp, ht]
  exact ⟨_, reach_of_run (fun _ _ _ => trivial) hrun, rfl, by simp [hi]⟩

theorem exists_collect (hinj : Function.Injective addr) (g : γ) {pre post : List Request}
    (hpre : ∀ q ∈ pre, q.idle) {q : Request} {period : ℕ} (hq : q.period = some period)
    {now r : ℕ} (hr : u64 (now + period) ≤ r) :
    ∃ s, Serves addr th (pre ++ q :: post) s ∧ ∃ m ∈ s.made, m.began = now ∧
      .collect m.timer r ∈ s.threads.log := by
  set i := th.mgr.fresh with hi
  set t : Timer γ := { period := period, next := u64 (now + period), func := g, recurring := false }
    with ht
  set m := ((th.mgr.make t).addTimerPtr addr i).1 with hm
  have hobj : m.obj i = some t := by
    rw [hm, TimerManager.addTimerPtr_obj]
    exact Function.update_self _ _ _
  have hmem : i ∈ m.timers := by
    refine (TimerManager.mem_addTimerPtr hinj ?_).2 (.inl rfl)
    simp [TimerManager.make, hi]
  have hexp : i ∈ m.expired r :=
    TimerManager.mem_expired.2 ⟨hmem, by simpa [TimerManager.nextOf, hobj, ht] using hr⟩
  -- the two sections of the request
  set v : Served γ :=
    { threads := { th with mgr := m }, todo := post, timer := some i, made := [⟨i, now, period⟩] }
    with hv
  have hrun : run (Served.step addr) (fun _ _ => true) { threads := th, todo := q :: post }
      [.own now g, .own now g] = some v := by
    simp [run, Served.step, Served.serve, hq, Threads.step, Threads.proceed, hv, ← hi, ← ht, ← hm]
  have hmade : Reach (Served.step addr) Free { threads := th, todo := q :: post } v :=
    reach_of_run (fun _ _ _ => trivial) hrun
  obtain ⟨s, hpoll, hsame, hlog⟩ : ∃ s, Reach (Served.step addr) Free v s ∧ s.made = v.made ∧
      .collect i r ∈ s.threads.log := exists_poll rfl hexp
  exact ⟨s, (serves_skip g hpre _).trans (hmade.trans hpoll), ⟨i, now, period⟩, by simp [hsame, hv],
    rfl, hlog⟩

/-- No timer that is made at the reading `now` is collected at a reading that is too early. -/
def NeverEarly (addr : ℕ → ℕ) (th : Threads γ) (reqs : List Request) (now : ℕ) (early : ℕ → Prop) :
    Prop :=
  ∀ s, Serves addr th reqs s → ∀ m ∈ s.made, m.began = now →
    ∀ r, .collect m.timer r ∈ s.threads.log → ¬ early r

theorem neverEarly_of_deadline (hth : Reach (Threads.step addr) Free {} th) {period now : ℕ}
    (hreqs : ∀ q ∈ reqs, ∀ p, q.period = some p → p = period) {early : ℕ → Prop}
    (hearly : ∀ r r', r ≤ r' → early r' → early r) (h : ¬early (u64 (now + period))) :
    NeverEarly addr th reqs now early := by
  intro s hs m hm hnow r hlog hr
  obtain ⟨q, hq, hp⟩ := hs.period m hm
  have hle := ((Punctual.of_serves hth hs).oneShot m hm).late r hlog
  rw [Made.deadline, hnow, hreqs q hq _ hp] at hle
  exact h (hearly _ _ hle hr)

/-- **A timer is not early if and only if its deadline is not.** -/
theorem neverEarly_iff (hinj : Function.Injective addr) (hth : Reach (Threads.step addr) Free {} th)
    (g : γ) {pre post : List Request} (hpre : ∀ q ∈ pre, q.idle) {q : Request} {period : ℕ}
    (hq : q.period = some period) (hpost : ∀ q ∈ post, ∀ p, q.period = some p → p = period)
    {now : ℕ} {early : ℕ → Prop} (hearly : ∀ r r', r ≤ r' → early r' → early r) :
    NeverEarly addr th (pre ++ q :: post) now early ↔ ¬early (u64 (now + period)) := by
  constructor
  · intro h hlate
    obtain ⟨s, hs, m, hm, hnow, hlog⟩ :
        ∃ s, Serves addr th (pre ++ q :: post) s ∧ ∃ m ∈ s.made, m.began = now ∧
          .collect m.timer (u64 (now + period)) ∈ s.threads.log :=
      exists_collect hinj g hpre hq le_rfl
    exact h s hs m hm hnow _ hlog hlate
  · refine neverEarly_of_deadline hth (fun q' hq' p hp => ?_) hearly
    rcases List.mem_append.1 hq' with hq' | hq'
    · rw [(hpre q' hq').1] at hp
      cases hp
    · rcases List.mem_cons.1 hq' with rfl | hq'
      · exact Option.some.inj (hp.symm.trans hq)
      · exact hpost q' hq' p hp

end Deadlines

/-! ### What is left -/

section Left

variable {addr : ℕ → ℕ} {s s' : Served γ} {th th' : Threads γ} {reqs : List Request} {i : ℕ}
  {a : Act γ}

/-- Every timer is cancelled before the next is made, and the last one before the end; `held` says
whether there is one to be cancelled. -/
def Balanced (held : Bool) : List Request → Prop
  | [] => held = false
  | q :: qs =>
      if q.period.isSome then held = false ∧ Balanced true qs
      else if q = .iom .timerCancel then held = true ∧ Balanced false qs
      else Balanced held qs

/-- The timer `i` is in one hand: at most one call puts it into the set. -/
structure Held (pending : Bool) (i : ℕ) (th : Threads γ) : Prop where
  made : i < th.mgr.fresh
  insert : th.calls.count (.insert i) = if pending then 1 else 0
  reinsert : .reinsert i ∉ th.calls

theorem Held.make (hq : Queued th) {now period : ℕ} {g : γ} {recurring : Bool}
    (hs : th.step addr (.addTimer now period g recurring) = some th') :
    Held true th.mgr.fresh th' := by
  have hnew : ∀ c : Call, c.Inserts th.mgr.fresh → c ∉ th.calls := fun c hc hmem =>
    lt_irrefl _ (hq c hmem _ hc)
  cases hs
  refine ⟨Nat.lt_succ_self _, ?_, by simpa using hnew _ (.inr rfl)⟩
  rw [List.count_cons_self, List.count_eq_zero.2 (hnew _ (.inl rfl))]
  rfl

theorem Held.other {pending : Bool} (h : Held pending i th) (hs : Stepped addr th a th')
    (href : ∀ now, a ≠ .refresh i now) (hnext : ∀ k, a = .next k → th.calls[k]? ≠ some (.insert i)) :
    Held pending i th' := by
  have hlt := lt_of_lt_of_le h.made hs.kept.fresh_le
  have herase : ∀ {k : ℕ} {c : Call}, a = .next k → th.calls[k]? = some c →
      (th.calls.eraseIdx k).count (.insert i) = if pending then 1 else 0 := fun ha hc =>
    (count_eraseIdx hc fun heq => hnext _ ha (hc.trans (congrArg some heq.symm))).trans h.insert
  cases hs with
  | addTimer =>
    refine ⟨hlt, ?_, by simpa using h.reinsert⟩
    rw [List.count_cons_of_ne (by simpa using h.made.ne'), h.insert]
  | cancel | refreshFails => exact ⟨hlt, h.insert, h.reinsert⟩
  | @refresh j now =>
    have hj : i ≠ j := by
      rintro rfl
      exact href now rfl
    exact ⟨hlt, by simpa using h.insert, by simpa [hj] using h.reinsert⟩
  | getExpiredFuncs => exact ⟨hlt, by simpa using h.insert, by simpa using h.reinsert⟩
  | insert hc | lookEmpty hc | collect hc =>
    exact ⟨hlt, herase rfl hc, fun hmem => h.reinsert (List.mem_of_mem_eraseIdx hmem)⟩
  | look hc =>
    refine ⟨hlt, ?_, fun hmem => h.reinsert ?_⟩
    · rw [List.count_cons_of_ne (by simp), herase rfl hc]
    · exact List.mem_of_mem_eraseIdx (List.mem_of_ne_of_mem (by simp) hmem)

theorem Held.insert_self (h : Held true i th)
    (hs : Stepped addr th (.next (th.calls.idxOf (.insert i))) th') : Held false i th' := by
  have hmem : Call.insert i ∈ th.calls := List.count_pos_iff.1 (by simp [h.insert])
  have hget : th.calls[th.calls.idxOf (.insert i)]? = some (.insert i) := by
    rw [List.getElem?_eq_getElem (List.idxOf_lt_length_of_mem hmem), List.getElem_idxOf]
  have hlt := lt_of_lt_of_le h.made hs.kept.fresh_le
  cases hs with
  | insert =>
    refine ⟨hlt, ?_, fun hmem => h.reinsert (List.mem_of_mem_eraseIdx hmem)⟩
    rw [← List.erase_eq_eraseIdx_of_idxOf rfl, List.count_erase_self, h.insert]
    rfl
  | look hc | lookEmpty hc | collect hc => cases hget.symm.trans hc

/-- Of the timers made here, only the one in `timer` can be in the set. -/
structure Tidy (addr : ℕ → ℕ) (s : Served γ) : Prop where
  reach : Reach (Threads.step addr) Free {} s.threads
  balanced : Balanced s.timer.isSome s.todo
  pending : ∀ i, s.pending = some i → s.timer = some i
  held : ∀ i, s.timer = some i → Held s.pending.isSome i s.threads ∧ ∃ m ∈ s.made, m.timer = i
  gone : ∀ m ∈ s.made, s.timer ≠ some m.timer → Gone m.timer s.threads

theorem Tidy.step (hinj : Function.Injective addr) (h : Tidy addr s) (hs : ServedStep addr s s') :
    Tidy addr s' := by
  have ho := InOrder.of_reach hinj h.reach
  have hgone : ∀ {a : Act γ} {th : Threads γ}, s.threads.step addr a = some th →
      ∀ m ∈ s.made, s.timer ≠ some m.timer → Gone m.timer th :=
    fun hth m hm hne => (h.gone m hm hne).step hinj ho (TimerManager.step_inv hth)
  cases hs with
  | @other a th hf hth =>
    refine ⟨h.reach.tail trivial hth, h.balanced, h.pending, fun i hi => ?_, hgone hth⟩
    obtain ⟨hheld, m, hm, rfl⟩ := h.held i hi
    refine ⟨hheld.other (TimerManager.step_inv hth) ?_ ?_, m, hm, rfl⟩
    · rintro now rfl
      simp only [Served.foreign, List.all_eq_true, decide_eq_true_eq] at hf
      exact hf m hm rfl
    · rintro k rfl hk
      cases hp : s.pending with
      | none =>
        rw [hp] at hheld
        exact List.count_eq_zero.1 hheld.insert (List.mem_of_getElem? hk)
      | some j =>
        cases (h.pending j hp).symm.trans hi
        simp [Served.foreign, hp, hk] at hf
  | @insert i th hp hth =>
    refine ⟨h.reach.tail trivial hth, h.balanced, by simp, fun j hj => ?_, hgone hth⟩
    cases (h.pending i hp).symm.trans hj
    obtain ⟨hheld, hmade⟩ := h.held i hj
    rw [hp] at hheld
    exact ⟨hheld.insert_self (TimerManager.step_inv hth), hmade⟩
  | @make q todo now period g th hp htodo hq hth =>
    -- there is no timer to be cancelled
    have hbal := h.balanced
    rw [htodo, Balanced, hq, Option.isSome_some, if_pos rfl] at hbal
    have htimer : s.timer = none := by simpa using hbal.1
    refine ⟨h.reach.tail trivial hth, hbal.2, fun i hi => hi, fun i hi => ?_, fun m hm hne => ?_⟩
    · cases hi
      exact ⟨.make (Queued.of_reach h.reach) hth, _,
        List.mem_append_right _ (List.mem_singleton_self _), rfl⟩
    · rcases List.mem_append.1 hm with hm | hm
      · exact hgone hth m hm (by simp [htimer])
      · rw [List.mem_singleton.1 hm] at hne
        exact absurd rfl hne
  | @cancel i todo th hp htodo ht hth =>
    obtain ⟨hheld, -⟩ := h.held i ht
    rw [hp] at hheld
    have hbal := h.balanced
    rw [htodo, Balanced, if_neg (by simp [Request.period]), if_pos rfl] at hbal
    refine ⟨h.reach.tail trivial hth, hbal.2, by simp [hp], by simp, fun m hm _ => ?_⟩
    by_cases hmi : m.timer = i
    · refine hmi ▸ Gone.cancel hinj ho hheld.made (fun c hc hins => ?_)
        (TimerManager.step_inv hth)
      rcases hins with rfl | rfl
      · exact List.count_eq_zero.1 hheld.insert hc
      · exact hheld.reinsert hc
    · exact hgone hth m hm (by simpa [ht] using Ne.symm hmi)
  | @skip q todo hp htodo hq hne =>
    have hbal := h.balanced
    rw [htodo, Balanced, hq, if_neg (by simp), if_neg hne] at hbal
    exact ⟨h.reach, hbal, h.pending, h.held, h.gone⟩

theorem Tidy.of_serves (hinj : Function.Injective addr) (hth : Reach (Threads.step addr) Free {} th)
    (hbal : Balanced false reqs) (h : Serves addr th reqs s) : Tidy addr s :=
  Reach.inv h ⟨hth, hbal, by simp, by simp, by simp⟩
    fun _ hx _ hs => hx.step hinj (Served.step_inv hs)

/-- The sections that the thread has yet to do, at most. -/
def Served.left (s : Served γ) : ℕ := 2 * s.todo.length + s.pending.toList.length

theorem Tidy.serve (h : Tidy addr s) (hn : ¬s.Through) (now : ℕ) (g : γ) :
    ∃ s', s.step addr (.own now g) = some s' ∧ s'.left < s.left := by
  cases hp : s.pending with
  | some i =>
    obtain ⟨hheld, -⟩ := h.held i (h.pending i hp)
    rw [hp] at hheld
    have hmem : Call.insert i ∈ s.threads.calls := List.count_pos_iff.1 (by simp [hheld.insert])
    obtain ⟨th, hth⟩ : ∃ th,
        s.threads.step addr (.next (s.threads.calls.idxOf (.insert i))) = some th := by
      rw [Threads.step, List.getElem?_eq_getElem (List.idxOf_lt_length_of_mem hmem)]
      exact ⟨_, rfl⟩
    exact ⟨{ s with threads := th, pending := none },
      by simp only [Served.step, Served.serve, hp, hth, Option.map_some], by simp [Served.left, hp]⟩
  | none =>
    cases htodo : s.todo with
    | nil => exact absurd ⟨htodo, hp⟩ hn
    | cons q todo =>
      cases hq : q.period with
      | some period =>
        obtain ⟨th, hth⟩ : ∃ th, s.threads.step addr (.addTimer now period g false) = some th :=
          ⟨_, rfl⟩
        refine ⟨{ threads := th, todo := todo, pending := some s.threads.mgr.fresh
                  timer := some s.threads.mgr.fresh
                  made := s.made ++ [⟨s.threads.mgr.fresh, now, period⟩] }, ?_, ?_⟩
        · simp only [Served.step, Served.serve, hp, htodo, hq, hth, Option.map_some]
        · simp only [Served.left, htodo, hp, List.length_cons, Option.toList_some, Option.toList_none,
            List.length_nil]
          omega
      | none =>
        by_cases hc : q = .iom .timerCancel
        · subst hc
          have hbal := h.balanced
          rw [htodo, Balanced, hq, if_neg (by simp), if_pos rfl] at hbal
          obtain ⟨i, hi⟩ := Option.isSome_iff_exists.1 hbal.1
          obtain ⟨hheld, -⟩ := h.held i hi
          rw [hp] at hheld
          obtain ⟨th, hth⟩ : ∃ th, s.threads.step addr (.cancel i) = some th := by
            rw [Threads.step, if_pos (TimerManager.Threads.known_iff.2
              ⟨hheld.made, List.count_eq_zero.1 hheld.insert⟩)]
            exact ⟨_, rfl⟩
          refine ⟨{ s with threads := th, todo := todo, timer := none }, ?_, ?_⟩
          · simp only [Served.step, Served.serve, hp, htodo, hq, hi, if_true, Option.bind_some, hth,
              Option.map_some]
          · simp [Served.left, htodo, hp]
        · exact ⟨{ s with todo := todo },
            by simp only [Served.step, Served.serve, hp, htodo, hq, if_neg hc],
            by simp [Served.left, htodo, hp]⟩

theorem exists_through (hinj : Function.Injective addr) (hth : Reach (Threads.step addr) Free {} th)
    (hbal : Balanced false reqs) (g : γ) (h : Serves addr th reqs s) :
    ∃ s', Reach (Served.step addr) Free s s' ∧ s'.Through := by
  induction hn : s.left using Nat.strong_induction_on generalizing s with
  | _ n ih =>
    by_cases hdone : s.Through
    · exact ⟨s, .refl, hdone⟩
    · obtain ⟨s₁, hstep, hlt⟩ := (Tidy.of_serves hinj hth hbal h).serve hdone 0 g
      obtain ⟨s', hreach, hdone'⟩ := ih s₁.left (hn ▸ hlt) (Reach.tail h trivial hstep) rfl
      exact ⟨s', (Reach.refl.tail trivial hstep).trans hreach, hdone'⟩

/-- **No timer is left.** If every timer is cancelled before the next is made, and the last one before
the end, then in every interleaving with the calls of other threads no timer is in the set when the
thread is through. -/
theorem none_left (hinj : Function.Injective addr) (hth : Reach (Threads.step addr) Free {} th)
    (hbal : Balanced false reqs) (h : Serves addr th reqs s) (hdone : s.Through) :
    ∀ m ∈ s.made, m.timer ∉ s.threads.mgr.timers := by
  have hx := Tidy.of_serves hinj hth hbal h
  have htimer : s.timer = none := by
    have hbal := hx.balanced
    rw [hdone.1, Balanced] at hbal
    simpa using hbal
  exact fun m hm => (hx.gone m hm (by simp [htimer])).out

end Left

end Eva01.Hook

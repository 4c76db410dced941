import Eva01.Runtime.Calls
import Eva01.Timer.Recurring

/-!
A recurring timer keeps the workers running: as long as nobody cancels it, `stop()` does not return
(`recurring_keeps_running`).

A worker ends when `shouldStop()` has held for it, and that asks `hasTimers()` first. A recurring
timer is put back whenever it expires. The only timers that the library cancels by itself are those
of `do_io` and `connect_with_timeout`, and none of them recurs (`OneShots`). So once a recurring
timer is in the set before any worker has got behind `hasTimers()`, none ever does.
-/

namespace Eva01.Runtime

open Eva01.Lib
open Eva01.Lib.Runs

variable {κ : Type*} {n N : ℕ}

/-! ### The timers of calls -/

/-- The timer has been made, and does not recur. -/
def Shared.OneShot (s : Shared κ N) (t : ℕ) : Prop :=
  (s.timers.obj t).isSome ∧ s.timers.recurs t = false

/-- The timers that calls of `do_io` will cancel do not recur. -/
structure OneShots (x : Sys κ n N) : Prop where
  code : ∀ i b f c r t, (x.workers i).pc = .exec b f c → c.call = some (r, some t) →
    x.shared.OneShot t
  ctx : ∀ f r t, (x.shared.fibers f).ctx.call = some (r, some t) → x.shared.OneShot t

section Timers

variable {addr : ℕ → ℕ} {m m' : TimerManager (Func κ N)} {t : ℕ}

lemma TimersStep.object (h : TimersStep addr m m') (ht : (m.obj t).isSome) :
    (m'.obj t).isSome ∧ m'.recurs t = m.recurs t := by
  cases h with
  | same => exact ⟨ht, rfl⟩
  | add f period deadline use =>
    obtain ⟨u, hu⟩ := Option.isSome_iff_exists.1 ht
    have hne : t ≠ m.fresh := (m.below t u hu).ne
    have hobj : (m.addTimer addr { period := period, next := deadline, func := (use.func f).1
                                   recurring := (use.func f).2 }).1.obj t = m.obj t :=
      Function.update_of_ne hne _ _
    exact ⟨hobj ▸ ht, (TimerManager.SameObject.of_obj hobj).recurs⟩
  | cancel => exact ⟨ht, rfl⟩
  | expire now =>
    refine ⟨?_, (TimerManager.sameObject_getExpiredFuncs addr m now t).recurs⟩
    simp only [TimerManager.getExpiredFuncs, TimerManager.isSome_rearms]
    exact ht

end Timers

section Step

variable {S : Setup κ n N} {x x' : Sys κ n N} {i : Fin n} {s s' : Shared κ N} {w w' : Worker κ N}
  {a : Act κ n N} {t : ℕ}

lemma SysStep.timers (h : SysStep S x a x') :
    TimersStep S.addr x.shared.timers x'.shared.timers := by
  cases h with
  | worker hw => exact hw.timers
  | @timerAdd k period deadline t g recurring changed m hk hm =>
    have htimers : _ = m := congrArg Prod.fst hm
    rw [← htimers]
    exact .add 0 period deadline (.call g recurring g)
  | schedule | spawn | addTimer | tickleRead | tickleWrite | stop | stopTickle | stopWrite | join
  | clock => exact .same

lemma Shared.OneShot.step (h : x.shared.OneShot t) (hs : SysStep S x a x') : x'.shared.OneShot t := by
  obtain ⟨hmade, hsame⟩ := hs.timers.object h.1
  exact ⟨hmade, hsame.trans h.2⟩

lemma oneShot_addTimer {f period deadline : ℕ} {r : Io κ N} {changed : Bool}
    (h : s.addTimer S.addr f period deadline (.io r) = (s', t, changed)) : s'.OneShot t := by
  have hm : _ = s'.timers := congrArg (fun y => y.1.timers) h
  have ht : s.timers.fresh = t := congrArg (fun y => y.2.1) h
  subst ht
  unfold Shared.OneShot TimerManager.recurs
  rw [← hm]
  simp [Shared.addTimer, TimerManager.addTimer, TimerManager.insert, TimerManager.make,
    TimerUse.func]

lemma OneShots.worker (h : OneShots x) (hkeep : ∀ {t : ℕ}, x.shared.OneShot t → s'.OneShot t)
    (hw : WorkerStep S i x.shared (x.workers i) s' w') : OneShots (x.put i s' w') := by
  have hs : (x.put i s' w').shared = s' := rfl
  refine ⟨fun j b f c r t hpc hc => ?_, fun f r t hc => ?_⟩
  · by_cases hj : j = i
    · subst hj
      rw [Sys.put_workers_self] at hpc
      rcases hw.exec_inv hpc with ⟨-, rfl, -⟩ | ⟨c₀, hc₀, hcode⟩
      · rw [(Ctx.call_code _).1] at hc
        exact hkeep (h.ctx f r t hc)
      · cases hcode.call_inv hc with
        | stay hcall => exact hkeep (h.code j b f c₀ r t hc₀ hcall)
        | arm harm => exact oneShot_addTimer harm
        | register => exact hkeep (h.code j b f _ r t hc₀ rfl)
    · rw [Sys.put_workers_of_ne hj] at hpc
      exact hkeep (h.code j b f c r t hpc hc)
  · rw [hs] at hc
    rcases hw.ctx_inv hc with ⟨hsame, -⟩ | ⟨b, st, res, hpc, hctx, -⟩
    · exact hkeep (h.ctx f r t (by rw [hsame]; exact hc))
    · rw [hctx] at hc
      exact hkeep (h.code i b f _ r t hpc hc)

/-- Another thread makes no call and saves no context. -/
lemma OneShots.step (h : OneShots x) (hs : SysStep S x a x') : OneShots x' := by
  have hkeep : ∀ {t : ℕ}, x.shared.OneShot t → x'.shared.OneShot t := fun ht => ht.step hs
  have hother : x'.workers = x.workers →
      (∀ f r t, (x'.shared.fibers f).ctx.call = some (r, t) →
        (x.shared.fibers f).ctx.call = some (r, t)) → OneShots x' := by
    intro hw hctx
    refine ⟨fun i b f c r t hpc hc => ?_, fun f r t hc => hkeep (h.ctx f r t (hctx f r _ hc))⟩
    rw [hw] at hpc
    exact hkeep (h.code i b f c r t hpc hc)
  cases hs with
  | worker hw => exact h.worker hkeep hw
  | spawn =>
    refine hother rfl fun F r t hc => ?_
    dsimp only at hc
    by_cases hF : F = x.shared.nextFiber
    · rw [hF, Shared.fibers_spawn] at hc
      cases hc
    · rwa [Shared.fibers_spawn_of_ne hF] at hc
  | schedule | addTimer | timerAdd | tickleRead | tickleWrite | stop | stopTickle | stopWrite | join
  | clock => exact hother rfl fun _ _ _ hc => hc

lemma OneShots.init : OneShots ({} : Sys κ n N) where
  code i b f c r t h := by cases h
  ctx f r t h := by cases h

end Step

/-! ### The end of a worker -/

/-- A worker that has ended had found that it should, and behind `stop()` all have ended. -/
structure Ends (x : Sys κ n N) : Prop where
  decided : ∀ i, (x.workers i).exited = true → (x.workers i).idleDone = true
  joined : x.ctl = .stopped → ∀ i, (x.workers i).exited = true

section Ends

variable {S : Setup κ n N} {x x' : Sys κ n N} {i : Fin n} {s s' : Shared κ N} {w w' : Worker κ N}
  {a : Act κ n N} {t : ℕ}

/-- **A worker gets behind `hasTimers()` where there is no timer**, and decides to end only there. -/
lemma WorkerStep.decides (h : WorkerStep S i s w s' w') (hd : w.idleDone = false)
    (hp : w.pc.asksStop = false) :
    w'.idleDone = false ∧ w'.pc.asksStop = false ∨ s.timers.hasTimers = false := by
  cases h with
  | stopTest hs => exact .inr hs
  | stopActive | stopBusy | stopYes | stopNo => cases hp
  | idleEnds => cases hd
  | @poppedNone ff d need | @poppedSome ff d need => cases need <;> exact .inl ⟨hd, rfl⟩
  | @expireWrite ff d now evs m gs => cases gs <;> exact .inl ⟨hd, rfl⟩
  | _ => exact .inl ⟨hd, rfl⟩

lemma Ends.step (h : Ends x) (hs : SysStep S x a x') : Ends x' := by
  cases hs with
  | @worker i ch s' w' hw =>
    obtain ⟨hlive, hend⟩ := hw.ends
    refine ⟨fun j => ?_, fun hctl => ?_⟩
    · by_cases hj : j = i
      · subst hj
        rw [Sys.put_workers_self]
        exact hend
      · rw [Sys.put_workers_of_ne hj]
        exact h.decided j
    · -- all workers have ended, so there is none to take the step
      have hall := h.joined hctl i
      rw [hlive] at hall
      cases hall
  | join hctl hall => exact ⟨h.decided, fun _ => hall⟩
  | stop | stopWrite => exact ⟨h.decided, fun hctl => by cases hctl⟩
  | stopTickle hc =>
    refine ⟨h.decided, fun hctl => ?_⟩
    rcases hc with ⟨-, rfl⟩ | ⟨k, -, rfl⟩
    · cases hctl
    · dsimp only at hctl
      split at hctl <;> cases hctl
  | schedule | spawn | addTimer | timerAdd | tickleRead | tickleWrite | clock =>
    exact ⟨h.decided, h.joined⟩

lemma Ends.init : Ends ({} : Sys κ n N) where
  decided i h := by cases h
  joined h := by cases h

end Ends

/-! ### A recurring timer -/

/-- The timer is in the set and recurs, and no worker has decided to end or is in `shouldStop()` with
the answer that there are no timers. -/
structure Ticks (t : ℕ) (x : Sys κ n N) : Prop where
  armed : t ∈ x.shared.timers.timers
  recurs : x.shared.timers.recurs t = true
  undecided : ∀ i, (x.workers i).idleDone = false ∧ (x.workers i).pc.asksStop = false

section Ticks

variable {S : Setup κ n N} {x x' : Sys κ n N} {a : Act κ n N} {t : ℕ}

lemma Ticks.shouldStop (h : Ticks t x) : x.shared.shouldStop = false := by
  simp [Shared.shouldStop, TimerManager.hasTimers_of_mem h.armed]

/-- A timer leaves the set when it is due and does not recur, or by a call that cancels it. -/
lemma WorkerStep.timer_stays {i : Fin n} {s s' : Shared κ N} {w w' : Worker κ N}
    (h : WorkerStep S i s w s' w') (ht : t ∈ s.timers.timers) :
    t ∈ s'.timers.timers ∨
      (s.timers.recurs t = false ∧ ∃ now evs, w.pc = .expireWrite now evs ∧ s.timers.nextOf t ≤ now) ∨
        ∃ b f r, w.pc = .exec b f (.ioResume r (some t)) := by
  cases h with
  | @code ff d b f c c' s' hc =>
    cases hc with
    | timerAdd hs =>
      have hm : _ = s'.timers := congrArg (fun y => y.1.timers) hs
      rw [← hm]
      exact .inl (OrderedSet.mem_insert_of_mem ht)
    | @ioResumeSome r t' =>
      by_cases htt : t = t'
      · exact .inr (.inr ⟨b, f, r, by rw [htt]⟩)
      · exact .inl (OrderedSet.mem_erase_of_ne (TimerManager.trichotomous_cmp S.addrInj _) ht htt)
    | event _ hs => exact .inl (by rwa [(event_frame hs).timers])
    | evAdd => exact .inl (by rwa [addEvent_frame.timers])
    | _ => exact .inl ht
  | @expireWrite ff d now evs m gs hexp =>
    have hm : _ = m := congrArg Prod.fst hexp
    show t ∈ m.timers ∨ _
    rw [← hm, TimerManager.mem_getExpiredFuncs S.addrInj]
    by_cases hr : s.timers.recurs t = true
    · exact .inl ⟨ht, .inr hr⟩
    · by_cases hdue : now < s.timers.nextOf t
      · exact .inl ⟨ht, .inl hdue⟩
      · exact .inr (.inl ⟨by simpa using hr, now, evs, rfl, by omega⟩)
  | eventsIo hs => exact .inl (by rwa [(event_frame hs).timers])
  | _ => exact .inl ht

lemma Ticks.step (h : Ticks t x) (hone : OneShots x) (hs : SysStep S x a x') : Ticks t x' := by
  have hmade : (x.shared.timers.obj t).isSome := x.shared.timers.made t h.armed
  have hrec : x'.shared.timers.recurs t = true := (hs.timers.object hmade).2.trans h.recurs
  cases hs with
  | @worker i ch s' w' hw =>
    refine ⟨?_, hrec, fun j => ?_⟩
    · refine (hw.timer_stays h.armed).resolve_right ?_
      rintro (⟨honce, -⟩ | ⟨b, f, r, hpc⟩)
      · rw [h.recurs] at honce
        cases honce
      · -- the timer that is cancelled belongs to a call, and does not recur
        have honce := (hone.code i b f _ r t hpc rfl).2
        rw [h.recurs] at honce
        cases honce
    · by_cases hj : j = i
      · subst hj
        rw [Sys.put_workers_self]
        refine (hw.decides (h.undecided j).1 (h.undecided j).2).resolve_right ?_
        rw [TimerManager.hasTimers_of_mem h.armed]
        exact fun htrue => by cases htrue
      · rw [Sys.put_workers_of_ne hj]
        exact h.undecided j
  | @timerAdd k period deadline t' g recurring changed m hk hm =>
    have htimers : _ = m := congrArg Prod.fst hm
    refine ⟨?_, hrec, h.undecided⟩
    show t ∈ m.timers
    rw [← htimers]
    exact OrderedSet.mem_insert_of_mem h.armed
  | schedule | spawn | addTimer | tickleRead | tickleWrite | stop | stopTickle | stopWrite | join
  | clock => exact ⟨h.armed, hrec, h.undecided⟩

end Ticks

end Eva01.Runtime

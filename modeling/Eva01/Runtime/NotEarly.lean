import Eva01.Runtime.KeepAlive
import Eva01.Runtime.Recycle

/-!
Nothing comes before its time, as long as the clock does not go back: a fiber that sleeps is not
resumed before the time it asked for is over (`sleep_not_early`), and a call of `do_io` or
`connect_with_timeout` is not marked as timed out before its timeout is over (`timeout_not_early`).

A function leaves a timer in one place only, where a worker collects what is due at a clock reading
it has made before; from there it goes through the task list to a fiber. So as long as the clock is
before the deadline of a timer, the timer is in the set and its function nowhere else. For a fiber
that sleeps this says where its one token is. A call is known by the number of its `timer_info`, and
may arm a timer several times, each time for a later deadline.
-/

namespace Eva01.Runtime

open Eva01.Lib
open Eva01.Lib.Runs
open Eva01.IOManager (Event)

variable {κ : Type*} {n N : ℕ}

/-! ### The clock, and what the workers have read from it -/

/-- The clock does not go back. -/
def Advances (x : Sys κ n N) : Act κ n N → Prop
  | .clock t => x.shared.clock ≤ t
  | _ => True

instance (x : Sys κ n N) (a : Act κ n N) : Decidable (Advances x a) :=
  match a with
  | .clock t => inferInstanceAs (Decidable (x.shared.clock ≤ t))
  | .worker _ _ | .schedule _ _ | .spawn _ _ | .addTimer _ _ _ | .external _ | .stop | .stopTickle
  | .join => inferInstanceAs (Decidable True)

/-- The clock reading with which a worker will collect the timers that are due. -/
def Pc.reading : Pc κ N → Option ℕ
  | .expireRead now _ | .expireWrite now _ => some now
  | _ => none

/-- No worker has read a time that is still to come. -/
def Readings (x : Sys κ n N) : Prop :=
  ∀ i now, (x.workers i).pc.reading = some now → now ≤ x.shared.clock

section Clock

variable {S : Setup κ n N} {x x' : Sys κ n N} {i : Fin n} {s s' : Shared κ N} {w w' : Worker κ N}
  {a : Act κ n N} {t : ℕ}

lemma WorkerStep.clock (h : WorkerStep S i s w s' w') : s'.clock = s.clock := by
  cases h with
  | code hc =>
    cases hc with
    | event _ hs => exact (event_frame hs).clock
    | evAdd => exact addEvent_frame.clock
    | timerAdd hs => exact (congrArg (fun y => y.1.clock) hs).symm
    | _ => rfl
  | eventsIo hs => exact (event_frame hs).clock
  | _ => rfl

lemma SysStep.clock_le (h : SysStep S x a x') (ha : Advances x a) :
    x.shared.clock ≤ x'.shared.clock := by
  cases h with
  | worker hw => exact hw.clock.ge
  | clock => exact ha
  | schedule | spawn | addTimer | timerAdd | tickleRead | tickleWrite | stop | stopTickle | stopWrite
  | join => exact le_rfl

lemma WorkerStep.reading (h : WorkerStep S i s w s' w') {now : ℕ} (hr : w'.pc.reading = some now) :
    w.pc.reading = some now ∨ now = s.clock := by
  cases h with
  | expireNow =>
    cases hr
    exact .inr rfl
  | expireRead => exact .inl hr
  | @poppedNone ff d need | @poppedSome ff d need => cases need <;> cases hr
  | @expireWrite ff d now' evs m gs => cases gs <;> cases hr
  | _ => cases hr

theorem Readings.step (h : Readings x) (hs : SysStep S x a x') (ha : Advances x a) : Readings x' := by
  have hle := hs.clock_le ha
  cases hs with
  | @worker i ch s' w' hw =>
    intro j now hr
    by_cases hj : j = i
    · subst hj
      rw [Sys.put_workers_self] at hr
      rcases hw.reading hr with hold | rfl
      · exact (h j now hold).trans hle
      · exact hle
    · rw [Sys.put_workers_of_ne hj] at hr
      exact (h j now hr).trans hle
  | schedule | spawn | addTimer | timerAdd | tickleRead | tickleWrite | stop | stopTickle | stopWrite
  | join | clock => exact fun j now hr => (h j now hr).trans hle

theorem Readings.of_reach {G : Sys κ n N → Act κ n N → Prop} (hG : ∀ x a, G x a → Advances x a)
    (h : Reach (Sys.step S) G {} x) : Readings x :=
  h.inv (fun i now hr => by cases hr) fun _ hx hg hs => hx.step (step_inv hs).2 (hG _ _ hg)

end Clock

/-! ### Timers over one step -/

/-- A timer keeps its function, and if it does not recur also its deadline. -/
structure Lasting (m m' : TimerManager (Func κ N)) (t : ℕ) : Prop where
  func : (m'.obj t).map Timer.func = (m.obj t).map Timer.func
  recurs : m'.recurs t = m.recurs t
  next : m.recurs t = false → m'.nextOf t = m.nextOf t

section Timers

variable {S : Setup κ n N} {x x' : Sys κ n N} {i : Fin n} {s s' : Shared κ N} {w w' : Worker κ N}
  {a : Act κ n N} {t : ℕ} {addr : ℕ → ℕ} {m m' : TimerManager (Func κ N)}

lemma Lasting.of_obj (h : m'.obj t = m.obj t) : Lasting m m' t :=
  ⟨congrArg (Option.map Timer.func) h, congrArg (fun o => (o.map Timer.recurring).getD false) h,
    fun _ => congrArg (fun o => (o.map Timer.next).getD 0) h⟩

lemma nextOf_rearms_of_not_recurs (l : List ℕ) (h : m.recurs t = false) :
    (l.foldl (TimerManager.rearm addr) m).nextOf t = m.nextOf t := by
  induction l generalizing m with
  | nil => rfl
  | cons j js ih =>
    rw [List.foldl_cons, ih (TimerManager.sameObject_rearm.recurs.trans h), TimerManager.nextOf_rearm]
    refine if_neg ?_
    rintro ⟨rfl, hr⟩
    rw [h] at hr
    cases hr

lemma TimersStep.lasting (h : TimersStep addr m m') (ht : (m.obj t).isSome) : Lasting m m' t := by
  cases h with
  | same => exact .of_obj rfl
  | add f period deadline use =>
    obtain ⟨u, hu⟩ := Option.isSome_iff_exists.1 ht
    exact .of_obj (Function.update_of_ne (m.below t u hu).ne _ _)
  | cancel => exact .of_obj rfl
  | expire now =>
    exact ⟨TimerManager.func_getExpiredFuncs addr now t,
      (TimerManager.sameObject_getExpiredFuncs addr m now t).recurs,
      fun hr => nextOf_rearms_of_not_recurs (m := m.keep now) _ hr⟩

lemma obj_addTimer_self {f period deadline : ℕ} {use : TimerUse κ N} {changed : Bool}
    (h : s.addTimer addr f period deadline use = (s', t, changed)) :
    s'.timers.obj t = some { period := period, next := deadline, func := (use.func f).1
                             recurring := (use.func f).2 } := by
  have hm : _ = s'.timers := congrArg (fun y => y.1.timers) h
  have ht : s.timers.fresh = t := congrArg (fun y => y.2.1) h
  subst ht
  rw [← hm]
  simp [Shared.addTimer, TimerManager.addTimer, TimerManager.insert, TimerManager.make]

/-- A timer in the set was there before, or a worker has just added it. -/
lemma WorkerStep.timer_origin (h : WorkerStep S i s w s' w') (ht : t ∈ s'.timers.timers) :
    t ∈ s.timers.timers ∨
      ∃ b f period deadline use, w.pc = .exec b f (.timerAdd period deadline use) ∧
        s'.timers.obj t = some { period := period, next := deadline, func := (use.func f).1
                                 recurring := (use.func f).2 } := by
  cases h with
  | @code ff d b f c c' s' hc =>
    cases hc with
    | @timerAdd period deadline t' use s' changed hs =>
      have hm : _ = s'.timers := congrArg (fun y => y.1.timers) hs
      have hfresh : s.timers.fresh = t' := congrArg (fun y => y.2.1) hs
      rw [← hm] at ht
      rcases OrderedSet.eq_or_mem_of_mem_insert ht with heq | hold
      · rw [show t = t' from heq.trans hfresh]
        exact .inr ⟨b, f, period, deadline, use, rfl, obj_addTimer_self hs⟩
      · exact .inl hold
    | ioResumeSome => exact .inl (OrderedSet.erase_sublist.subset ht)
    | event _ hs => exact .inl (by rwa [(event_frame hs).timers] at ht)
    | evAdd => exact .inl (by rwa [addEvent_frame.timers] at ht)
    | _ => exact .inl ht
  | @expireWrite ff d now evs m gs hexp =>
    have hm : _ = m := congrArg Prod.fst hexp
    have hmem : t ∈ m.timers := ht
    rw [← hm, TimerManager.mem_getExpiredFuncs S.addrInj] at hmem
    exact .inl hmem.1
  | eventsIo hs => exact .inl (by rwa [(event_frame hs).timers] at ht)
  | _ => exact .inl ht

lemma SysStep.timer_origin (h : SysStep S x a x') (ht : t ∈ x'.shared.timers.timers) :
    t ∈ x.shared.timers.timers ∨
      (∃ k, (x'.shared.timers.obj t).map Timer.func = some (.user k)) ∨
      ∃ i b f period deadline use, (x.workers i).pc = .exec b f (.timerAdd period deadline use) ∧
        x'.shared.timers.obj t = some { period := period, next := deadline, func := (use.func f).1
                                        recurring := (use.func f).2 } := by
  cases h with
  | @worker i ch s' w' hw =>
    exact (hw.timer_origin ht).imp_right fun hnew => .inr ⟨i, hnew⟩
  | @timerAdd k period deadline t' g recurring changed m hk hm =>
    have htimers : _ = m := congrArg Prod.fst hm
    have hmem : t ∈ m.timers := ht
    show _ ∨ (∃ k, (m.obj t).map Timer.func = some (.user k)) ∨ _
    rw [← htimers] at hmem ⊢
    rcases OrderedSet.eq_or_mem_of_mem_insert hmem with rfl | hold
    · exact .inr (.inl ⟨g, TimerManager.func_addTimer_self⟩)
    · exact .inl hold
  | schedule | spawn | addTimer | tickleRead | tickleWrite | stop | stopTickle | stopWrite | join
  | clock => exact .inl ht

lemma SysStep.timer_stays (h : SysStep S x a x') (ht : t ∈ x.shared.timers.timers) :
    t ∈ x'.shared.timers.timers ∨
      (∃ i now, (x.workers i).pc.reading = some now ∧ x.shared.timers.nextOf t ≤ now) ∨
        ∃ i b f r, (x.workers i).pc = .exec b f (.ioResume r (some t)) := by
  cases h with
  | @worker i ch s' w' hw =>
    rcases hw.timer_stays ht with hin | ⟨-, now, evs, hpc, hdue⟩ | ⟨b, f, r, hpc⟩
    · exact .inl hin
    · exact .inr (.inl ⟨i, now, by rw [hpc]; rfl, hdue⟩)
    · exact .inr (.inr ⟨i, b, f, r, hpc⟩)
  | @timerAdd k period deadline t' g recurring changed m hk hm =>
    have htimers : _ = m := congrArg Prod.fst hm
    refine .inl ?_
    show t ∈ m.timers
    rw [← htimers]
    exact OrderedSet.mem_insert_of_mem ht
  | schedule | spawn | addTimer | tickleRead | tickleWrite | stop | stopTickle | stopWrite | join
  | clock => exact .inl ht

end Timers

/-! ### Sleep -/

/-- The fiber is inside `sleep`, `usleep` or `nanosleep`, and has not given up control. -/
def Code.sleeps (next : κ) : Code κ N → Prop
  | .timerAdd _ _ (.sleep k) => k = next
  | .tickleRead (.suspend (.user k)) | .tickleWrite (.suspend (.user k)) => k = next
  | .yieldState .suspend (.user k) | .yieldSwap .suspend (.user k) => k = next
  | _ => False

/-- The fiber `F` sleeps, and nothing will wake it before `D`: its timer is still to be added, or it
is in the set. -/
inductive Dozes (F D : ℕ) (next : κ) (x : Sys κ n N) : Prop
  | adding {i : Fin n} {b : Branch κ N} {period deadline : ℕ} :
      (x.workers i).pc = .exec b F (.timerAdd period deadline (.sleep next)) → D ≤ deadline →
      Dozes F D next x
  | armed {t : ℕ} :
      x.shared.timers.Armed t (.wake F) → x.shared.timers.recurs t = false →
      D ≤ x.shared.timers.nextOf t →
      (∀ i b c, (x.workers i).pc = .exec b F c → c.sleeps next) → Dozes F D next x

section Sleep

variable {S : Setup κ n N} {x x' : Sys κ n N} {a : Act κ n N} {F D : ℕ} {next : κ}
  {R : ℕ → Option (Fin N × Event × ℕ)}

lemma CodeStep.sleeps {s s' : Shared κ N} {f : ℕ} {c c' : Code κ N} (h : CodeStep S s f c s' c')
    (hc : c.sleeps next) : c'.sleeps next := by
  cases h with
  | @timerAdd period deadline t use s' changed hs =>
    cases use with
    | sleep k => cases changed <;> exact hc
    | _ => cases hc
  | @tickleSkip cont | @tickleRead cont | @tickleWrite cont =>
    cases cont with
    | suspend r => cases r <;> exact hc
    | _ => cases hc
  | @yieldState st r =>
    cases r with
    | user k => cases st <;> exact hc
    | io => cases st <;> cases hc
  | @event c _ _ _ hop =>
    unfold Code.eventOp at hop
    split at hop
    · cases hc
    · cases hc
    · cases hop
  | ioEnd hio => rcases hio with rfl | rfl <;> cases hc
  | _ => cases hc

lemma WorkerStep.adds_sleep {i : Fin n} {s s' : Shared κ N} {w w' : Worker κ N} {b : Branch κ N}
    {period deadline : ℕ} (h : WorkerStep S i s w s' w')
    (hpc : w.pc = .exec b F (.timerAdd period deadline (.sleep next))) :
    ∃ t, s'.timers.Armed t (.wake F) ∧ s'.timers.recurs t = false ∧ s'.timers.nextOf t = deadline ∧
      ∀ b' c, w'.pc = .exec b' F c → c.sleeps next := by
  cases h with
  | @code ff d b f c c' s' hc =>
    cases hpc
    have hsleeps : c'.sleeps next := hc.sleeps rfl
    cases hc with
    | @timerAdd _ _ t _ _ changed hs =>
      have hobj := obj_addTimer_self hs
      have hm : _ = s'.timers := congrArg (fun y => y.1.timers) hs
      have hfresh : s.timers.fresh = t := congrArg (fun y => y.2.1) hs
      refine ⟨t, ⟨?_, by rw [hobj]; rfl⟩, by simp [TimerManager.recurs, hobj, TimerUse.func],
        by simp [TimerManager.nextOf, hobj], fun b' c hw => ?_⟩
      · rw [← hm, ← hfresh]
        exact (TimerManager.armed_addTimer_self S.addrInj).1
      · cases hw
        exact hsleeps
    | event hop => cases hop
    | ioEnd hio => rcases hio with hio | hio <;> cases hio
  | _ => cases hpc

lemma one_le_weight {m : TimerManager (Func κ N)} {t : ℕ} (h : m.Armed t (.wake F)) :
    1 ≤ m.weight (Func.wakes F) := by
  have hweigh : m.weigh (Func.wakes F) t = 1 := by
    obtain ⟨u, hu, hf⟩ := Option.map_eq_some_iff.1 h.2
    simp [TimerManager.weigh, hu, hf, Func.wakes]
  have hmem : m.weigh (Func.wakes F) t ∈ m.timers.map (m.weigh (Func.wakes F)) :=
    List.mem_map_of_mem h.1
  rw [← hweigh]
  exact List.single_le_sum (fun _ _ => Nat.zero_le _) _ hmem

/-- The timer that wakes a fiber is its token: no worker has another. -/
lemma Owned.token_armed (hx : Owned x) {t : ℕ} (ht : x.shared.timers.Armed t (.wake F)) (i : Fin n) :
    (x.workers i).token F = 0 := by
  have hone := one_le_weight ht
  have hle := x.worker_token_le F i
  have htok := hx.token F
  have hshared : x.shared.token F = (x.shared.tasks.map fun tk => tk.work.token F).sum +
    x.shared.timers.weight (Func.wakes F) + x.shared.slots F := rfl
  omega

lemma Owned.queued_armed (hx : Owned x) {t : ℕ} (ht : x.shared.timers.Armed t (.wake F)) :
    x.shared.queued F = 0 := by
  have hone := one_le_weight ht
  have htok := hx.token F
  have hqueued : x.shared.queued F ≤ (x.shared.tasks.map fun tk => tk.work.token F).sum :=
    List.sum_le_sum fun tk _ => tk.work.holds_le_token
  simp only [Sys.token, Shared.token] at htok
  omega

theorem Dozes.step (h : Dozes F D next x) (hx : Owned x) (hc : Calls R x) (hread : Readings x)
    (hclock : x.shared.clock < D) (hs : SysStep S x a x') : Dozes F D next x' := by
  cases h with
  | @adding i b period deadline hpc hdue =>
    cases hs with
    | @worker j ch s' w' hw =>
      by_cases hij : i = j
      · -- the fiber itself adds its timer
        subst hij
        obtain ⟨t, ht, honce, hnext, hw'⟩ := hw.adds_sleep hpc
        refine .armed ht honce (hdue.trans hnext.ge) fun j b' c hj => ?_
        by_cases hji : j = i
        · subst hji
          rw [Sys.put_workers_self] at hj
          exact hw' b' c hj
        · rw [Sys.put_workers_of_ne hji] at hj
          exact absurd (hx.runs_unique (F := F) (by simp [hj, Pc.runs]) (by simp [hpc, Pc.runs])) hji
      · exact .adding (by rwa [Sys.put_workers_of_ne hij]) hdue
    | schedule | spawn | addTimer | timerAdd | tickleRead | tickleWrite | stop | stopTickle
    | stopWrite | join | clock => exact .adding hpc hdue
  | @armed t ht honce hdue hcode =>
    have hmade : (x.shared.timers.obj t).isSome := x.shared.timers.made t ht.1
    have hlast := hs.timers.lasting hmade
    have hstays : t ∈ x'.shared.timers.timers := by
      rcases hs.timer_stays ht.1 with hin | ⟨i, now, hr, hle⟩ | ⟨i, b, f, r, hpc⟩
      · exact hin
      · have hnow := hread i now hr
        omega
      · -- the timer of a call does not wake a sleeping fiber
        have hfunc := (hc.code i b f _ r _ hpc rfl).timer t rfl
        rw [ht.2] at hfunc
        cases hfunc
    refine .armed ⟨hstays, hlast.func.trans ht.2⟩ (hlast.recurs.trans honce)
      (by rw [hlast.next honce]; exact hdue) fun i b c hpc => ?_
    rcases hs.exec_inv hpc with hold | ⟨ch, -, ⟨hswap, -⟩ | ⟨c₀, hc₀, hstep⟩⟩
    · exact hcode i b c hold
    · have htok := hx.token_armed ht i
      simp [Worker.token, hswap, Pc.token] at htok
    · exact hstep.sleeps (hcode i b c₀ hc₀)

/-- The machine runs with wake-ups that meet fibers which no worker has, and with a clock that does
not go back. -/
def Steady (S : Setup κ n N) (x : Sys κ n N) (a : Act κ n N) : Prop :=
  WakesUnheld S x a ∧ Advances x a

instance (S : Setup κ n N) (x : Sys κ n N) (a : Act κ n N) : Decidable (Steady S x a) :=
  inferInstanceAs (Decidable (_ ∧ _))

/-- No worker is about to resume `F`, or executes it behind the call of `sleep` it is in, and `F` is
not in the task list. -/
structure Sys.Asleep (x : Sys κ n N) (F : ℕ) (next : κ) : Prop where
  queued : x.shared.queued F = 0
  hand : ∀ i, (x.workers i).pc.hand F = 0
  resumed : ∀ i b, (x.workers i).pc ≠ .call b F ∧ (x.workers i).pc ≠ .swapIn b F
  code : ∀ i b c, (x.workers i).pc = .exec b F c → c.sleeps next

lemma Dozes.asleep (h : Dozes F D next x) (hx : Owned x) : x.Asleep F next := by
  cases h with
  | @adding i b period deadline hpc hdue =>
    have hruns : 0 < (x.workers i).pc.runs F := by simp [hpc, Pc.runs]
    have hself : 0 < (x.workers i).holds F := hruns.trans_le (x.workers i).runs_le
    have hother : ∀ {j}, j ≠ i → (x.workers j).holds F = 0 := fun hj => (hx.other hj.symm hself).1
    have hq := x.worker_holds_le F i
    have hone := hx.holds F
    refine ⟨by omega, fun j => ?_, fun j b' => ⟨fun hj => ?_, fun hj => ?_⟩, fun j b' c hj => ?_⟩
    · by_cases hji : j = i
      · simp [hji, hpc, Pc.hand]
      · have hzero := hother hji
        simp only [Worker.holds] at hzero
        omega
    · obtain rfl := hx.runs_unique (F := F) (i := j) (by simp [hj, Pc.runs]) hruns
      rw [hpc] at hj
      cases hj
    · obtain rfl := hx.runs_unique (F := F) (i := j) (by simp [hj, Pc.runs]) hruns
      rw [hpc] at hj
      cases hj
    · obtain rfl := hx.runs_unique (F := F) (i := j) (by simp [hj, Pc.runs]) hruns
      rw [hpc] at hj
      cases hj
      rfl
  | @armed t ht honce hdue hcode =>
    refine ⟨hx.queued_armed ht, fun i => ?_, fun i b => ⟨fun hpc => ?_, fun hpc => ?_⟩, hcode⟩
    · have hle := (x.workers i).pc.hand_le_token (F := F)
      have htok := hx.token_armed ht i
      simp only [Worker.token] at htok
      omega
    · have htok := hx.token_armed ht i
      simp [Worker.token, hpc, Pc.token] at htok
    · have htok := hx.token_armed ht i
      simp [Worker.token, hpc, Pc.token] at htok

lemma dozes_of_call {i : Fin n} {b : Branch κ N} {k : κ} {ms : ℕ} {ch : Choice N}
    (hpc : (x.workers i).pc = .exec b F (.user k)) (hk : S.prog k = .sleep ms next)
    (hfit : x.shared.clock + ms < 2 ^ 64) (hs : x.step S (.worker i ch) = some x') :
    Dozes F (x.shared.clock + ms) next x' := by
  have hdeadline : u64 (x.shared.clock + ms) = x.shared.clock + ms := Nat.mod_eq_of_lt hfit
  unfold Sys.step at hs
  split at hs
  · cases hs
  · simp only [workerStep, hpc, execStep, codeStep, userStep, hk, Option.map_some,
      Option.some.injEq] at hs
    subst hs
    exact .adding (by rw [Sys.put_workers_self]) hdeadline.ge

/-- **A fiber does not wake before its time.** A fiber calls `sleep`, `usleep` or `nanosleep`, which
make a timer of `ms` milliseconds. In every run from there, as long as fewer than `ms` milliseconds
have passed, the fiber is inside the call, whatever events, callbacks and tasks there are for
others: it is not in the task list, no worker is about to resume it, and none executes what comes
after the call. -/
theorem sleep_not_early {x₁ x₂ : Sys κ n N} {i : Fin n} {b : Branch κ N} {k : κ} {ms : ℕ}
    {ch : Choice N} (h₀ : Reach (Sys.step S) (Steady S) {} x₁)
    (hpc : (x₁.workers i).pc = .exec b F (.user k)) (hk : S.prog k = .sleep ms next)
    (hfit : x₁.shared.clock + ms < 2 ^ 64) (hs : x₁.step S (.worker i ch) = some x₂)
    (h : Reach (Sys.step S) (Steady S) x₂ x) (hclock : x.shared.clock < x₁.shared.clock + ms) :
    x.Asleep F next := by
  have hbegins : Dozes F (x₁.shared.clock + ms) next x₂ := dozes_of_call hpc hk hfit hs
  have h₂ : Reach (Sys.step S) (Steady S) {} x₂ := by
    refine h₀.tail (a := .worker i ch) ⟨?_, trivial⟩ hs
    simp [WakesUnheld, hpc, Pc.woken, Code.eventOp, hk]
  have hunheld : ∀ {y : Sys κ n N}, Reach (Sys.step S) (Steady S) x₂ y →
      Reach (Sys.step S) (WakesUnheld S) {} y := fun hr => (h₂.trans hr).mono fun _ _ hg => hg.1
  have hdozes : x.shared.clock < x₁.shared.clock + ms → Dozes F (x₁.shared.clock + ms) next x := by
    refine Reach.inv (P := fun y => y.shared.clock < x₁.shared.clock + ms →
      Dozes F (x₁.shared.clock + ms) next y) h (fun _ => hbegins) fun {y y' a} hr hy hg hstep hlt => ?_
    have hsys := (step_inv hstep).2
    have hlt' := (hsys.clock_le hg.2).trans_lt hlt
    obtain ⟨R, hc⟩ := Calls.of_reach (hunheld hr)
    exact (hy hlt').step (Owned.of_reach (hunheld hr)) hc
      (Readings.of_reach (fun _ _ hg => hg.2) (h₂.trans hr)) hlt' hsys
  exact (hdozes hclock).asleep (Owned.of_reach (hunheld h))

end Sleep

/-- A task that sleeps for five milliseconds, and one that reads from a socket with such a timeout. -/
def dozing : Setup ℕ 1 1 :=
  .ofProg (fun k => if k = 0 then .sleep 5 1
    else if k = 2 then .io ⟨0, Nat.one_pos⟩ .read (some 5) true 1 else .ret) Nat.one_pos small_one

/-- After four milliseconds a new task comes; the worker looks at the timers first, and leaves the
sleeping task where it is. -/
theorem sleep_not_early_tickled :
    ∃ x : Sys ℕ 1 1, x.shared.clock = 4 ∧ (x.workers 0).pc = .events [.tickle] ∧ x.Asleep 0 1 := by
  have h : (run (Sys.step dozing) (fun x a => decide (Steady dozing x a)) {}
      (.schedule [0] (-1) :: steps 0 5)).any (fun x₁ =>
        decide (x₁.shared.clock = 0 ∧ (x₁.workers 0).pc = .exec (.func (.user 0) 0) 0 (.user 0)) &&
        (x₁.step dozing (.worker 0 .tau)).any fun x₂ =>
          (run (Sys.step dozing) (fun x a => decide (Steady dozing x a)) x₂
            (steps 0 14 ++ [.clock 4, .schedule [1] (-1), .worker 0 (.poll [.tickle])] ++
              steps 0 3)).any fun x =>
            decide (x.shared.clock = 4 ∧ (x.workers 0).pc = .events [.tickle])) = true := by
    decide +kernel
  obtain ⟨x₁, hr, hx₁⟩ := exists_reach_of_run (fun _ _ => of_decide_eq_true) h
  obtain ⟨hat, hstep⟩ := Bool.and_eq_true_iff.1 hx₁
  obtain ⟨hzero, hpc⟩ := of_decide_eq_true hat
  obtain ⟨x₂, hs, hrun⟩ := (Option.any_eq_true _ _).1 hstep
  obtain ⟨x, hr', hx⟩ := exists_reach_of_run (fun _ _ => of_decide_eq_true) hrun
  obtain ⟨hclock, hevents⟩ := of_decide_eq_true hx
  exact ⟨x, hclock, hevents, sleep_not_early hr hpc rfl (by rw [hzero]; decide) hs hr'
    (by rw [hzero, hclock]; decide)⟩

/-! ### Callbacks that no timer has any more -/

/-- The function is in the task list, or the entry of a fiber. -/
def Shared.Carries (s : Shared κ N) (g : Func κ N) : Prop :=
  g ∈ s.callees ∨ ∃ f, (s.fibers f).ctx = .entry (some g)

/-- The function is with the worker, which has not begun it, or has and is about to end it by
`cancelEvent`. -/
def Pc.Carries (pc : Pc κ N) (g : Func κ N) : Prop := g ∈ pc.callees ∨ pc.fires = some g

def Sys.Carries (x : Sys κ n N) (g : Func κ N) : Prop :=
  x.shared.Carries g ∨ ∃ i, (x.workers i).pc.Carries g

section Carries

variable {S : Setup κ n N} {x x' : Sys κ n N} {i : Fin n} {s s' : Shared κ N} {w w' : Worker κ N}
  {a : Act κ n N} {k : ℕ} {fd : Fin N} {e : Event}

lemma Shared.Carries.of_update {f : ℕ} {fb : Fiber κ N} {g : Func κ N}
    (h : ∃ F, (Function.update s.fibers f fb F).ctx = .entry (some g)) :
    (∃ F, (s.fibers F).ctx = .entry (some g)) ∨ fb.ctx = .entry (some g) := by
  obtain ⟨F, hF⟩ := h
  by_cases hf : F = f
  · subst hf
    rw [Function.update_self] at hF
    exact .inr hF
  · rw [Function.update_of_ne hf] at hF
    exact .inl ⟨F, hF⟩

lemma WorkerStep.entries (h : WorkerStep S i s w s' w')
    (hg : ∃ f, (s'.fibers f).ctx = .entry (some (.timeout k fd e))) :
    (∃ f, (s.fibers f).ctx = .entry (some (.timeout k fd e))) ∨ .timeout k fd e ∈ w.pc.callees := by
  cases h with
  | dispatchReset | dispatchNew =>
    rcases Shared.Carries.of_update hg with hold | hnew
    · exact .inl hold
    · cases hnew
      exact .inr (List.mem_singleton_self _)
  | call =>
    rcases Shared.Carries.of_update hg with hold | hnew
    · exact .inl hold
    · exact .inl ⟨_, hnew⟩
  | yieldSwap | finSwap | retire =>
    rcases Shared.Carries.of_update hg with hold | hnew
    · exact .inl hold
    · cases hnew
  | code hc =>
    refine .inl ?_
    cases hc with
    | spawn =>
      rcases Shared.Carries.of_update hg with hold | hnew
      · exact hold
      · cases hnew
    | yieldState | finState =>
      rcases Shared.Carries.of_update hg with hold | hnew
      · exact hold
      · exact ⟨_, hnew⟩
    | event _ hs => rwa [(event_frame hs).fibers] at hg
    | evAdd => rwa [addEvent_frame.fibers] at hg
    | timerAdd hs =>
      have hf : _ = s'.fibers := congrArg (fun y => y.1.fibers) hs
      rwa [← hf] at hg
    | _ => exact hg
  | eventsIo hs =>
    rw [(event_frame hs).fibers] at hg
    exact .inl hg
  | _ => exact .inl hg

/-- A fiber comes to a callback by its entry. -/
lemma Ctx.carries {b : Branch κ N} {f : ℕ} {c : Ctx κ N}
    (h : (Pc.exec b f c.code).Carries (.timeout k fd e)) : c = .entry (some (.timeout k fd e)) := by
  cases c with
  | entry g =>
    rcases h with h | h
    · cases g with
      | none => cases h
      | some g =>
        cases g with
        | timeout => rw [List.mem_singleton.1 h]
        | _ => cases h
    · cases g with
      | none => cases h
      | some g => cases g <;> cases h
  | «at» r => cases r <;> rcases h with h | h <;> cases h
  | dead => rcases h with h | h <;> cases h

lemma due_of_mem_getExpiredFuncs (addr : ℕ → ℕ) {m : TimerManager (Func κ N)} {now : ℕ}
    {g : Func κ N} (h : g ∈ (m.getExpiredFuncs addr now).2) :
    ∃ t, m.Armed t g ∧ m.nextOf t ≤ now := by
  obtain ⟨t, ht, hfunc⟩ := List.mem_filterMap.1 h
  obtain ⟨hmem, hdue⟩ := TimerManager.mem_expired.1 ht
  exact ⟨t, ⟨hmem, hfunc⟩, hdue⟩

/-- A callback in the task list was there, or the worker has scheduled what it had collected. -/
lemma WorkerStep.callees_origin (h : WorkerStep S i s w s' w')
    (hg : Func.timeout k fd e ∈ s'.callees) :
    .timeout k fd e ∈ s.callees ∨ .timeout k fd e ∈ w.pc.callees := by
  cases h with
  | selectTook hsel => exact .inl ((mem_callees_took hsel).2 (.inl hg))
  | code hc => exact .inl (hc.callees_origin hg)
  | requeue =>
    rw [Shared.callees_schedule] at hg
    exact .inl ((List.mem_append.1 hg).resolve_right List.not_mem_nil)
  | @expireSched ff d gs evs hlock =>
    rw [Shared.callees_schedule] at hg
    refine (List.mem_append.1 hg).imp_right fun hgs => ?_
    obtain ⟨y, hy, hyg⟩ := List.mem_filterMap.1 hgs
    obtain ⟨g, hgmem, rfl⟩ := List.mem_map.1 hy
    cases hyg
    exact hgmem
  | eventsIo hs => exact .inl (event_callees hs hg)
  | drain =>
    have hs : Shared.callees { s with pipe := s.pipe - 256 } = s.callees := Shared.callees_congr rfl
    rw [hs] at hg
    exact .inl hg
  | _ => exact .inl hg

/-- A worker gets a callback from the task list, from the entry of a fiber or from a timer. -/
lemma WorkerStep.carries_origin (h : WorkerStep S i s w s' w')
    (hg : w'.pc.Carries (.timeout k fd e)) :
    (s.Carries (.timeout k fd e) ∨ w.pc.Carries (.timeout k fd e)) ∨
      ∃ now t, w.pc.reading = some now ∧ s.timers.Armed t (.timeout k fd e) ∧
        s.timers.nextOf t ≤ now := by
  have hnone : ∀ {P : Prop}, none = some (Func.timeout (κ := κ) k fd e) → P := fun hf =>
    absurd hf.symm (Option.some_ne_none _)
  cases h with
  | selectTook hsel =>
    exact .inl (.inl (.inl ((mem_callees_took hsel).2 (.inr (hg.resolve_right hnone)))))
  | @poppedNone ff d need => cases need <;> exact .inl (.inr hg)
  | @poppedSome ff d need tk => cases need <;> exact .inl (.inr hg)
  | @tickleSkip ff d tk | @tickleRead ff d tk | @tickleWrite ff d tk =>
    cases tk <;> exact .inl (.inr hg)
  | @call ff d b f hst => cases b <;> exact .inl (.inr hg)
  | swapIn => exact .inl (.inl (.inr ⟨_, Ctx.carries hg⟩))
  | @code ff d b f c c' s' hc => exact .inl (.inr (.inl (hc.exec_callees b hg)))
  | @expireWrite ff d now evs m gs hexp =>
    obtain ⟨t, ht, hdue⟩ : ∃ t, s.timers.Armed t (.timeout k fd e) ∧ s.timers.nextOf t ≤ now := by
      refine due_of_mem_getExpiredFuncs S.addr ?_
      rw [hexp]
      cases gs with
      | nil => rcases hg with hg | hg <;> cases hg
      | cons g gs => exact hg.resolve_right hnone
    exact .inr ⟨now, t, rfl, ht, hdue⟩
  | expireSched => rcases hg with hg | hg <;> cases hg
  | _ => exact .inl (.inr hg)

theorem SysStep.carries (h : SysStep S x a x') (hg : x'.Carries (.timeout k fd e)) :
    x.Carries (.timeout k fd e) ∨
      ∃ i now t, (x.workers i).pc.reading = some now ∧ x.shared.timers.Armed t (.timeout k fd e) ∧
        x.shared.timers.nextOf t ≤ now := by
  have houtside : x'.workers = x.workers →
      (x'.shared.Carries (.timeout k fd e) → x.shared.Carries (.timeout k fd e)) →
        x.Carries (.timeout k fd e) := by
    intro hw hs
    refine hg.imp hs fun hpc => ?_
    rwa [hw] at hpc
  cases h with
  | @worker i ch s' w' hw =>
    rcases hg with (hmem | hentry) | ⟨j, hpc⟩
    · exact .inl ((hw.callees_origin hmem).imp .inl fun hpc => ⟨i, .inl hpc⟩)
    · exact .inl ((hw.entries hentry).imp .inr fun hpc => ⟨i, .inl hpc⟩)
    · by_cases hj : j = i
      · subst hj
        rw [Sys.put_workers_self] at hpc
        exact (hw.carries_origin hpc).imp (fun hold => hold.imp_right fun hpc => ⟨j, hpc⟩)
          fun hdue => ⟨j, hdue⟩
      · rw [Sys.put_workers_of_ne hj] at hpc
        exact .inl (.inr ⟨j, hpc⟩)
  | schedule =>
    refine .inl (houtside rfl fun hs => hs.imp_left fun hmem => ?_)
    rw [Shared.callees_schedule] at hmem
    exact (List.mem_append.1 hmem).resolve_right (not_timeout_of_user _)
  | @spawn g thr =>
    refine .inl (houtside rfl fun hs => ?_)
    rcases hs with hmem | hentry
    · have hcallees := Shared.callees_schedule (s := x.shared.newFiber (.user g) x.shared.nextTicket)
        [.fiber x.shared.nextFiber] thr
      exact .inl ((List.mem_append.1 (hcallees ▸ hmem)).resolve_right List.not_mem_nil)
    · rcases Shared.Carries.of_update hentry with hold | hnew
      · exact .inr hold
      · cases hnew
  | addTimer | timerAdd | tickleRead | tickleWrite | stop | stopTickle | stopWrite | join | clock =>
    exact .inl (houtside rfl fun hs => hs)

/-- A `timer_info` is marked by the callback of its call. -/
lemma WorkerStep.marks (h : WorkerStep S i s w s' w') (hk : (s'.infos k).cancelled = true) :
    (s.infos k).cancelled = true ∨ ∃ fd e, Func.timeout k fd e ∈ w.pc.callees := by
  cases h with
  | code hc =>
    cases hc with
    | io =>
      by_cases hnew : k = s.nextInfo
      · subst hnew
        simp at hk
      · exact .inl (by simpa [Function.update_of_ne hnew] using hk)
    | @timeoutAct k' fd e =>
      by_cases hkk : k = k'
      · subst hkk
        exact .inr ⟨fd, e, List.mem_singleton_self _⟩
      · exact .inl (by simpa [Function.update_of_ne hkk] using hk)
    | @ioEnd _ r =>
      by_cases hkk : k = r.info
      · subst hkk
        exact .inl (by simpa [Shared.endIo] using hk)
      · exact .inl (by simpa [Shared.endIo, Function.update_of_ne hkk] using hk)
    | event _ hs => exact .inl (by rwa [(event_frame hs).infos] at hk)
    | evAdd => exact .inl (by rwa [addEvent_frame.infos] at hk)
    | timerAdd hs =>
      have hi : _ = s'.infos := congrArg (fun y => y.1.infos) hs
      rw [← hi] at hk
      exact .inl hk
    | _ => exact .inl hk
  | eventsIo hs => exact .inl (by rwa [(event_frame hs).infos] at hk)
  | _ => exact .inl hk

lemma SysStep.marks (h : SysStep S x a x') (hk : (x'.shared.infos k).cancelled = true) :
    (x.shared.infos k).cancelled = true ∨ ∃ fd e, x.Carries (.timeout k fd e) := by
  cases h with
  | @worker i ch s' w' hw =>
    rcases hw.marks hk with hold | ⟨fd, e, hmem⟩
    · exact .inl hold
    · exact .inr ⟨fd, e, .inr ⟨i, .inl hmem⟩⟩
  | schedule | spawn | addTimer | timerAdd | tickleRead | tickleWrite | stop | stopTickle | stopWrite
  | join | clock => exact .inl hk

end Carries

/-! ### Timeouts -/

/-- Nothing will mark the call `k` as timed out before `D`: its timers are armed for `D` or later, and
its callback has left none of them. `A` is what is known of the calls under way. -/
structure Clear (k D : ℕ) (A : Io κ N → Prop) (x : Sys κ n N) : Prop where
  code : ∀ i b f c r t, (x.workers i).pc = .exec b f c → c.call = some (r, t) → A r
  ctx : ∀ f r t, (x.shared.fibers f).ctx.call = some (r, t) → A r
  adding : ∀ i b f period deadline r, (x.workers i).pc = .exec b f (.timerAdd period deadline (.io r)) →
    r.info = k → D ≤ deadline
  timers : ∀ t fd e, x.shared.timers.Armed t (.timeout k fd e) →
    x.shared.timers.recurs t = false ∧ D ≤ x.shared.timers.nextOf t
  carried : ∀ fd e, ¬ x.Carries (.timeout k fd e)
  unmarked : (x.shared.infos k).cancelled = false

section Timeout

variable {S : Setup κ n N} {x x' : Sys κ n N} {a : Act κ n N} {k D : ℕ} {A A' : Io κ N → Prop}

lemma Clear.init (k D : ℕ) (A : Io κ N → Prop) : Clear k D A ({} : Sys κ n N) where
  code i b f c r t h := by cases h
  ctx f r t h := by cases h
  adding i b f period deadline r h := by cases h
  timers t fd e h := by cases h.1
  carried fd e h := by
    rcases h with (h | ⟨f, h⟩) | ⟨i, h | h⟩ <;> cases h
  unmarked := rfl

lemma Clear.mono (h : Clear k D A x) (hA : ∀ r, A r → A' r) : Clear k D A' x :=
  ⟨fun i b f c r t hpc hc => hA r (h.code i b f c r t hpc hc), fun f r t hc => hA r (h.ctx f r t hc),
    h.adding, h.timers, h.carried, h.unmarked⟩

lemma CodeStep.begins {s s' : Shared κ N} {f : ℕ} {p : κ} {r : Io κ N}
    (h : CodeStep S s f (.user p) s' (.ioCall r)) :
    S.prog p = .io r.fd r.event r.timeout r.retry r.next ∧ s'.nextInfo = s.nextInfo + 1 := by
  cases h with
  | io hp => exact ⟨hp, rfl⟩
  | event hop => cases (Code.call_eventOp hop).2

lemma CodeStep.record {s s' : Shared κ N} {f : ℕ} {c c' : Code κ N} {r : Io κ N} {t : Option ℕ}
    (h : CodeStep S s f c s' c') (hc : c'.call = some (r, t)) :
    (∃ t', c.call = some (r, t')) ∨
      ∃ p, c = .user p ∧ S.prog p = .io r.fd r.event r.timeout r.retry r.next ∧ r.info = s.nextInfo ∧
        s'.nextInfo = s.nextInfo + 1 := by
  cases h.call_inv hc with
  | start hinfo => exact .inr ⟨_, rfl, h.begins.1, hinfo, h.begins.2⟩
  | stay hcall => exact .inl ⟨_, hcall⟩
  | arm | register | resume | retry => exact .inl ⟨_, rfl⟩

lemma CodeStep.arms {s s' : Shared κ N} {f period deadline : ℕ} {c : Code κ N} {r : Io κ N}
    (h : CodeStep S s f c s' (.timerAdd period deadline (.io r))) :
    c = .ioArm r ∧ ∃ ms, r.timeout = some ms ∧ deadline = u64 (s.clock + ms) := by
  generalize hc' : Code.timerAdd period deadline (.io r) = c' at h
  cases h with
  | ioArmSome hr =>
    cases hc'
    exact ⟨rfl, _, hr, rfl⟩
  | makeTimer hp => rcases hp with ⟨g, recurring, next, -, rfl⟩ | ⟨next, -, rfl⟩ <;> cases hc'
  | @timerAdd _ _ t use _ changed => cases use <;> cases changed <;> cases hc'
  | @tickleSkip cont | @tickleWrite cont => cases cont <;> cases hc'
  | @evAdd a => cases a <;> cases hc'
  | event hop =>
    have hcall := (Code.call_eventOp hop).2
    rw [← hc'] at hcall
    cases hcall
  | _ => cases hc'

/-- **One step while the clock is before `D`.** What is to be known of a new call and of the deadlines
that calls compute is left open. -/
theorem Clear.step (h : Clear k D A x) (hread : Readings x) (hclock : x.shared.clock < D)
    (hs : SysStep S x a x')
    (hnew : ∀ i ch b f p r, a = .worker i ch → (x.workers i).pc = .exec b f (.user p) →
      S.prog p = .io r.fd r.event r.timeout r.retry r.next → r.info = x.shared.nextInfo →
      x'.shared.nextInfo = x.shared.nextInfo + 1 → A r)
    (harm : ∀ r ms, A r → r.info = k → r.timeout = some ms → D ≤ u64 (x.shared.clock + ms)) :
    Clear k D A x' := by
  -- a collected callback would have to come from a timer that is due
  have hcarried : ∀ fd e, ¬ x'.Carries (.timeout k fd e) := by
    intro fd e hcar
    rcases hs.carries hcar with hold | ⟨i, now, t, hr, ht, hdue⟩
    · exact h.carried fd e hold
    · have hnext := (h.timers t fd e ht).2
      have hnow := hread i now hr
      omega
  refine ⟨fun i b f c r t hpc hc => ?_, fun f r t hc => ?_, fun i b f period deadline r hpc hr => ?_,
    fun t fd e ht => ?_, hcarried, ?_⟩
  · rcases hs.exec_inv hpc with hold | ⟨ch, ha, ⟨-, rfl⟩ | ⟨c₀, hc₀, hstep⟩⟩
    · exact h.code i b f c r t hold hc
    · rw [(Ctx.call_code _).1] at hc
      exact h.ctx f r t hc
    · rcases hstep.record hc with ⟨t', ht'⟩ | ⟨p, rfl, hp, hinfo, hn⟩
      · exact h.code i b f c₀ r t' hc₀ ht'
      · exact hnew i ch b f p r ha hc₀ hp hinfo hn
  · rcases hs.ctx_inv hc with hold | ⟨i, b, c, hpc, hc'⟩
    · exact h.ctx f r t hold
    · exact h.code i b f c r t hpc hc'
  · rcases hs.exec_inv hpc with hold | ⟨ch, -, ⟨-, hctx⟩ | ⟨c₀, hc₀, hstep⟩⟩
    · exact h.adding i b f period deadline r hold hr
    · have hreg := (Ctx.call_code (x.shared.fibers f).ctx).2.1
      rw [← hctx] at hreg
      cases hreg
    · obtain ⟨rfl, ms, hms, rfl⟩ := hstep.arms
      exact harm r ms (h.code i b f _ r none hc₀ rfl) hr hms
  · rcases hs.timer_origin ht.1 with hold | ⟨g, hg⟩ | ⟨i, b, f, period, deadline, use, hpc, hobj⟩
    · have hlast := hs.timers.lasting (x.shared.timers.made t hold)
      obtain ⟨honce, hnext⟩ := h.timers t fd e ⟨hold, hlast.func.symm.trans ht.2⟩
      exact ⟨hlast.recurs.trans honce, by rwa [hlast.next honce]⟩
    · rw [ht.2] at hg
      cases hg
    · have hfunc := ht.2
      rw [hobj] at hfunc
      cases use with
      | call | sleep => cases hfunc
      | io r =>
        cases hfunc
        refine ⟨by simp [TimerManager.recurs, hobj, TimerUse.func], ?_⟩
        have hnext : x'.shared.timers.nextOf t = deadline := by simp [TimerManager.nextOf, hobj]
        rw [hnext]
        exact h.adding i b f period deadline r hpc rfl
  · by_contra hmark
    rcases hs.marks (by simpa using hmark) with hold | ⟨fd, e, hcar⟩
    · rw [h.unmarked] at hold
      cases hold
    · exact h.carried fd e hcar

lemma clear_before (h : Reach (Sys.step S) Advances {} x) (hclock : x.shared.clock < D)
    (hk : x.shared.nextInfo ≤ k) : Clear k D (fun r => r.info ≠ k) x := by
  refine Reach.inv (P := fun y => y.shared.clock < D → y.shared.nextInfo ≤ k →
    Clear k D (fun r => r.info ≠ k) y) h (fun _ _ => Clear.init k D _)
    (fun {y y' a} hr hy hg hstep hlt hle => ?_) hclock hk
  have hsys := (step_inv hstep).2
  have hlt' := (hsys.clock_le hg).trans_lt hlt
  refine (hy hlt' (hsys.nextInfo.trans hle)).step (Readings.of_reach (fun _ _ hg => hg) hr) hlt' hsys
    (fun i ch b f p r _ _ _ hinfo hnext => ?_) fun r ms hne hr _ => absurd hr hne
  omega

lemma nextInfo_of_call {i : Fin n} {b : Branch κ N} {f : ℕ} {p next : κ} {fd : Fin N} {e : Event}
    {timeout : Option ℕ} {retry : Bool} {ch : Choice N}
    (hpc : (x.workers i).pc = .exec b f (.user p)) (hp : S.prog p = .io fd e timeout retry next)
    (hs : x.step S (.worker i ch) = some x') : x'.shared.nextInfo = x.shared.nextInfo + 1 := by
  unfold Sys.step at hs
  split at hs
  · cases hs
  · simp only [workerStep, hpc, execStep, codeStep, userStep, hp, Option.map_some,
      Option.some.injEq] at hs
    subst hs
    rfl

lemma le_deadline {T ms clock : ℕ} (hle : T ≤ clock) (hlt : clock < T + ms)
    (hfit : T + ms + ms ≤ 2 ^ 64) : T + ms ≤ u64 (clock + ms) := by
  unfold u64
  rw [Nat.mod_eq_of_lt (by omega)]
  omega

/-- **A call is not timed out before its time.** A fiber calls one of the hooked functions on a socket
with a timeout of `ms` milliseconds. In every run from there, as long as fewer than `ms` milliseconds
have passed, the `timer_info` of the call is not marked, however often the call has waited and armed
its timer again. -/
theorem timeout_not_early {x₁ x₂ : Sys κ n N} {i : Fin n} {b : Branch κ N} {f ms : ℕ} {p next : κ}
    {fd : Fin N} {e : Event} {retry : Bool} {ch : Choice N}
    (h₀ : Reach (Sys.step S) Advances {} x₁) (hpc : (x₁.workers i).pc = .exec b f (.user p))
    (hp : S.prog p = .io fd e (some ms) retry next) (hfit : x₁.shared.clock + ms + ms ≤ 2 ^ 64)
    (hs : x₁.step S (.worker i ch) = some x₂) (h : Reach (Sys.step S) Advances x₂ x)
    (hclock : x.shared.clock < x₁.shared.clock + ms) :
    (x.shared.infos x₁.shared.nextInfo).cancelled = false := by
  have h₂ : Reach (Sys.step S) Advances {} x₂ := h₀.tail (a := .worker i ch) trivial hs
  have hfirst := (step_inv hs).2
  -- the call has begun, and what is known of it stays so while the clock is before its deadline
  let K := x₁.shared.nextInfo
  let D := x₁.shared.clock + ms
  let A : Io κ N → Prop := fun r => r.info = K → r.timeout = some ms
  have harm : ∀ {y : Sys κ n N}, x₁.shared.clock ≤ y.shared.clock → y.shared.clock < D →
      ∀ r ms', A r → r.info = K → r.timeout = some ms' → D ≤ u64 (y.shared.clock + ms') := by
    intro y hle hlt r ms' hA hinfo hms
    rw [hA hinfo] at hms
    cases hms
    exact le_deadline hle hlt hfit
  have hrun : x₁.shared.clock ≤ x.shared.clock ∧ K < x.shared.nextInfo ∧
      (x.shared.clock < D → Clear K D A x) := by
    refine Reach.inv (P := fun y => x₁.shared.clock ≤ y.shared.clock ∧ K < y.shared.nextInfo ∧
      (y.shared.clock < D → Clear K D A y)) h
      ⟨hfirst.clock_le trivial, (nextInfo_of_call hpc hp hs).ge, fun hlt => ?_⟩
      fun {y y' a} hr hy hg hstep => ?_
    · have hlt' := (hfirst.clock_le trivial).trans_lt hlt
      have hbefore : Clear K D A x₁ :=
        (clear_before h₀ hlt' le_rfl).mono fun r hne heq => absurd heq hne
      refine hbefore.step (Readings.of_reach (fun _ _ hg => hg) h₀) hlt' hfirst
        (fun j ch' b' f' p' r ha hj hr _ _ _ => ?_) (harm le_rfl hlt')
      cases ha
      rw [hpc] at hj
      cases hj
      rw [hp] at hr
      simp only [Op.io.injEq] at hr
      exact hr.2.2.1.symm
    · obtain ⟨hle, hlt, hclear⟩ := hy
      have hsys := (step_inv hstep).2
      refine ⟨hle.trans (hsys.clock_le hg), hlt.trans_le hsys.nextInfo, fun hlt' => ?_⟩
      have hbefore := (hsys.clock_le hg).trans_lt hlt'
      refine (hclear hbefore).step (Readings.of_reach (fun _ _ hg => hg) (h₂.trans hr)) hbefore hsys
        (fun j ch' b' f' p' r _ _ _ hinfo _ heq => ?_) (harm hle hbefore)
      -- the number has been given away
      omega
  exact (hrun.2.2 hclock).unmarked

end Timeout

/-- After four milliseconds there is something to read, but another reader has it; the call arms its
timer a second time. -/
theorem timeout_not_early_again :
    ∃ x : Sys ℕ 1 1, x.shared.clock = 4 ∧ x.shared.timers.timers = [1] ∧
      x.shared.timers.nextOf 1 = 9 ∧ (x.shared.infos 0).cancelled = false := by
  have h : (run (Sys.step dozing) (fun x a => decide (Advances x a)) {}
      (.schedule [2] (-1) :: steps 0 5)).any (fun x₁ =>
        decide (x₁.shared.clock = 0 ∧ x₁.shared.nextInfo = 0 ∧
          (x₁.workers 0).pc = .exec (.func (.user 2) 0) 0 (.user 2)) &&
        (x₁.step dozing (.worker 0 .tau)).any fun x₂ =>
          (run (Sys.step dozing) (fun x a => decide (Advances x a)) x₂
            (.worker 0 (.result .again) :: steps 0 17 ++
              [.clock 4, .worker 0 (.poll [.io ⟨0, Nat.one_pos⟩ { events := { read := true } }])] ++
              steps 0 13 ++ .worker 0 (.result .again) :: steps 0 2)).any fun x =>
            decide (x.shared.clock = 4 ∧ x.shared.timers.timers = [1] ∧
              x.shared.timers.nextOf 1 = 9)) = true := by
    decide +kernel
  obtain ⟨x₁, hr, hx₁⟩ := exists_reach_of_run (fun _ _ => of_decide_eq_true) h
  obtain ⟨hat, hstep⟩ := Bool.and_eq_true_iff.1 hx₁
  obtain ⟨hzero, hinfo, hpc⟩ := of_decide_eq_true hat
  obtain ⟨x₂, hs, hrun⟩ := (Option.any_eq_true _ _).1 hstep
  obtain ⟨x, hr', hx⟩ := exists_reach_of_run (fun _ _ => of_decide_eq_true) hrun
  obtain ⟨hclock, htimers, hnext⟩ := of_decide_eq_true hx
  refine ⟨x, hclock, htimers, hnext, ?_⟩
  rw [← hinfo]
  exact timeout_not_early hr hpc rfl (by rw [hzero]; decide) hs hr' (by rw [hzero, hclock]; decide)

end Eva01.Runtime

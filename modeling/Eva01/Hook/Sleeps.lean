import Eva01.Hook.Blocking

/-!
The hooked `sleep`, `usleep` and `nanosleep`, and the timer that wakes the fiber.

The period of the timer is what the C conversions of the source make of the argument: a product of
type `unsigned int`, a division that drops the microseconds, a conversion to `int` and from there to
`uint64_t`. The deadline is a `uint64_t` sum with the clock reading. Each of them can lose something,
and then the timer is due before the time has passed. The conditions under which it is not are exact
(`sleeps_not_early_iff`).

Clock readings are in milliseconds, durations here in nanoseconds.
-/

namespace Eva01.Hook

open Eva01.Lib Eva01.Lib.Interact Eva01.Lib.Runs
open Eva01.TimerManager (Threads)

/-- The call comes back, and the timer that it makes at the reading `now` is not collected by any
`getExpiredFuncs` at a reading less than `ns` nanoseconds later. -/
def NotEarly {γ : Type*} {σ : Type} (addr : ℕ → ℕ) (th : Threads γ) (now ns : ℕ) (x : Hooked σ ℤ)
    (w : State σ) : Prop :=
  ∃ v w' reqs, x w = .ok (v, w') ∧ w'.trace = w.trace ++ reqs ∧
    NeverEarly addr th reqs now fun r => r * 10 ^ 6 < now * 10 ^ 6 + ns

section Sleeps

variable {γ : Type*} {σ : Type} {addr : ℕ → ℕ} {th : Threads γ} {O : Outside σ} {t : Thread}
  {w : State σ}

lemma sleepFor_apply (hiom : t.iom = true) (period : ℕ) : sleepFor O t period w =
    .ok (0, answered O (.iom .yield) (answered O (.iom (.addTimer period)) w)) := by
  simp [sleepFor, iomCall, hiom]

/-- A sleep is not early if and only if the deadline of its timer is not. -/
lemma sleepFor_notEarly_iff (hinj : Function.Injective addr)
    (hth : Reach (Threads.step addr) Free {} th) (g : γ) (hiom : t.iom = true) (now ns period : ℕ) :
    NotEarly addr th now ns (sleepFor O t period) w ↔
      now * 10 ^ 6 + ns ≤ u64 (now + period) * 10 ^ 6 := by
  have hmono : ∀ r r' : ℕ, r ≤ r' → r' * 10 ^ 6 < now * 10 ^ 6 + ns → r * 10 ^ 6 < now * 10 ^ 6 + ns :=
    fun r r' hr hlt => lt_of_le_of_lt (Nat.mul_le_mul_right _ hr) hlt
  have hiff : NeverEarly addr th ([] ++ .iom (.addTimer period) :: [.iom .yield]) now
      (fun r => r * 10 ^ 6 < now * 10 ^ 6 + ns) ↔ _ :=
    neverEarly_iff hinj hth g (by simp) rfl (by simp [Request.period]) hmono
  rw [not_lt] at hiff
  constructor
  · rintro ⟨v, w', reqs, hx, htrace, hearly⟩
    rw [sleepFor_apply hiom] at hx
    cases hx
    rw [answered_trace, answered_trace, List.append_assoc, List.append_cancel_left_eq] at htrace
    subst htrace
    exact hiff.1 hearly
  · intro h
    refine ⟨0, _, [.iom (.addTimer period), .iom .yield], sleepFor_apply hiom period, ?_, hiff.2 h⟩
    simp

/-- The period of `nanosleep`: an `int` that is negative wraps around in `uint64_t`. -/
lemma asU64_asInt (ms : ℕ) : asU64 (asInt ms) =
    if ms % 2 ^ 32 < 2 ^ 31 then ms % 2 ^ 32 else 2 ^ 64 - 2 ^ 32 + ms % 2 ^ 32 := by
  simp only [asU64, asInt, Int.bmod]
  split_ifs <;> omega

lemma sleep_due_iff {now seconds : ℕ} :
    now * 10 ^ 6 + seconds * 10 ^ 9 ≤ u64 (now + seconds * 1000 % 2 ^ 32) * 10 ^ 6 ↔
      seconds * 1000 < 2 ^ 32 ∧ now + seconds * 1000 < 2 ^ 64 := by
  have hperiod := Nat.mod_le (seconds * 1000) (2 ^ 32)
  have hwrap := Nat.mod_le (now + seconds * 1000 % 2 ^ 32) (2 ^ 64)
  unfold u64
  constructor
  · intro h
    have hfit : seconds * 1000 % 2 ^ 32 = seconds * 1000 := by omega
    rw [hfit] at h
    omega
  · rintro ⟨hfit, hdue⟩
    rw [Nat.mod_eq_of_lt hfit, Nat.mod_eq_of_lt hdue]
    omega

lemma usleep_due_iff {now usec : ℕ} (hnow : now < 2 ^ 64) :
    now * 10 ^ 6 + usec * 1000 ≤ u64 (now + usec / 1000) * 10 ^ 6 ↔
      usec % 1000 = 0 ∧ now + usec / 1000 < 2 ^ 64 := by
  unfold u64
  omega

lemma nanosleep_due_iff {now sec nsec ms : ℕ} (hnow : now < 2 ^ 64)
    (hms : ms = sec * 1000 + nsec / 10 ^ 6) (hfit : ms < 2 ^ 63) :
    now * 10 ^ 6 + (sec * 10 ^ 9 + nsec) ≤ u64 (now + asU64 (asInt ms)) * 10 ^ 6 ↔
      (ms < 2 ^ 31 ∧ nsec % 10 ^ 6 = 0 ∧ now + ms < 2 ^ 64) ∨
        (2 ^ 31 ≤ ms % 2 ^ 32 ∧ now + ms % 2 ^ 32 < 2 ^ 32) := by
  rw [asU64_asInt]
  unfold u64
  split_ifs with h <;> omega

/-- **When the sleeps do not wake early.** On a worker, for every argument in its domain and every
clock reading: `sleep` if and only if the milliseconds fit in an `unsigned int` and the deadline in a
`uint64_t`; `usleep` if and only if the time is one of whole milliseconds and the deadline fits;
`nanosleep` if and only if this holds and the milliseconds fit in an `int`, or if they become a
negative `int`, which makes the timer due some 2⁶⁴ milliseconds later, and the clock is so early that
this deadline fits. -/
theorem sleeps_not_early_iff (hinj : Function.Injective addr)
    (hth : Reach (Threads.step addr) Free {} th) (g : γ) (ht : t.hooked = true)
    (hiom : t.iom = true) {now : ℕ} (hnow : now < 2 ^ 64) (fuel : ℕ) (O : Outside σ) (w : State σ) :
    (∀ seconds < 2 ^ 32,
      NotEarly addr th now (seconds * 10 ^ 9) (hook O t fuel (.sleep seconds)) w ↔
        seconds * 1000 < 2 ^ 32 ∧ now + seconds * 1000 < 2 ^ 64) ∧
    (∀ usec < 10 ^ 6,
      NotEarly addr th now (usec * 1000) (hook O t fuel (.usleep usec)) w ↔
        usec % 1000 = 0 ∧ now + usec / 1000 < 2 ^ 64) ∧
    (∀ (req rem : Ptr) (sec nsec ms : ℕ), O.readTime w.out req = some (↑sec, ↑nsec) →
      nsec < 10 ^ 9 → ms = sec * 1000 + nsec / 10 ^ 6 → ms < 2 ^ 63 →
      (NotEarly addr th now (sec * 10 ^ 9 + nsec) (hook O t fuel (.nanosleep req rem)) w ↔
        (ms < 2 ^ 31 ∧ nsec % 10 ^ 6 = 0 ∧ now + ms < 2 ^ 64) ∨
          (2 ^ 31 ≤ ms % 2 ^ 32 ∧ now + ms % 2 ^ 32 < 2 ^ 32))) := by
  refine ⟨fun seconds _ => ?_, fun usec _ => ?_, fun req rem sec nsec ms hread _ hms hfit => ?_⟩
  · have hsleep : hook O t fuel (.sleep seconds) = sleepFor O t (seconds * 1000 % 2 ^ 32) := by
      simp [hook, sleep, ht]
    rw [hsleep, sleepFor_notEarly_iff hinj hth g hiom, sleep_due_iff]
  · have husleep : hook O t fuel (.usleep usec) = sleepFor O t (usec / 1000) := by
      simp [hook, usleep, ht]
    rw [husleep, sleepFor_notEarly_iff hinj hth g hiom, usleep_due_iff hnow]
  · have hperiod : (sec : ℤ) * 1000 + ((nsec : ℤ).tdiv 1000).tdiv 1000 = (ms : ℤ) := by
      have husec : (nsec : ℤ).tdiv 1000 = nsec / 1000 := Int.tdiv_eq_ediv_of_nonneg (by omega)
      rw [hms, husec, Int.tdiv_eq_ediv_of_nonneg (by omega)]
      omega
    have hnano : hook O t fuel (.nanosleep req rem) w = sleepFor O t (asU64 (asInt ms)) w := by
      simp only [hook, nanosleep, ht, Bool.not_true, Bool.false_eq_true, if_false, bind_apply,
        look_apply, ok_bind, hread, hperiod]
    have hsame : NotEarly addr th now (sec * 10 ^ 9 + nsec) (hook O t fuel (.nanosleep req rem)) w ↔
        NotEarly addr th now (sec * 10 ^ 9 + nsec) (sleepFor O t (asU64 (asInt ms))) w := by
      unfold NotEarly
      rw [hnano]
    rw [hsame, sleepFor_notEarly_iff hinj hth g hiom, nanosleep_due_iff hnow hms hfit]

end Sleeps

theorem sleeps_not_early_two : NotEarly id ({} : Threads ℕ) 5 (2 * 10 ^ 9)
    (hook script ⟨true, true⟩ 0 (.sleep 2)) ⟨{}, {}, []⟩ :=
  ((sleeps_not_early_iff Function.injective_id .refl 0 (t := ⟨true, true⟩) rfl rfl
    (by decide : 5 < 2 ^ 64) 0 script ⟨{}, {}, []⟩).1 2 (by decide)).2 (by decide)

/-- **Sleeps that wake early.** At the clock reading 5: the timer of `sleep(4294968)`, which is some
49 days, is due after 704 milliseconds; that of `usleep(999)` at once. -/
theorem sleeps_wake_early :
    (∃ w' s, hook script ⟨true, true⟩ 0 (.sleep 4294968) ⟨{}, {}, []⟩ = .ok (0, w') ∧
      Serves id ({} : Threads ℕ) w'.trace s ∧ s.made = [⟨0, 5, 704⟩] ∧
      .collect 0 709 ∈ s.threads.log) ∧
    ∃ w' s, hook script ⟨true, true⟩ 0 (.usleep 999) ⟨{}, {}, []⟩ = .ok (0, w') ∧
      Serves id ({} : Threads ℕ) w'.trace s ∧ s.made = [⟨0, 5, 0⟩] ∧
      .collect 0 5 ∈ s.threads.log := by
  have hsleep : (run (Served.step id)
      (fun _ _ => true) { threads := {}, todo := [.iom (.addTimer 704), .iom .yield] }
      [.own 5 0, .own 5 0, .other (.getExpiredFuncs 709), .other (.next 0), .other (.next 0)]).any
      (fun s : Served ℕ => decide (s.made = [⟨0, 5, 704⟩] ∧ .collect 0 709 ∈ s.threads.log)) = true := by
    decide +kernel
  have husleep : (run (Served.step id)
      (fun _ _ => true) { threads := {}, todo := [.iom (.addTimer 0), .iom .yield] }
      [.own 5 0, .own 5 0, .other (.getExpiredFuncs 5), .other (.next 0), .other (.next 0)]).any
      (fun s : Served ℕ => decide (s.made = [⟨0, 5, 0⟩] ∧ .collect 0 5 ∈ s.threads.log)) = true := by
    decide +kernel
  obtain ⟨s, hr, hs⟩ := exists_reach_of_run (G := Free) (fun _ _ _ => trivial) hsleep
  obtain ⟨s', hr', hs'⟩ := exists_reach_of_run (G := Free) (fun _ _ _ => trivial) husleep
  exact ⟨⟨_, s, rfl, hr, of_decide_eq_true hs⟩, _, s', rfl, hr', of_decide_eq_true hs'⟩

end Eva01.Hook

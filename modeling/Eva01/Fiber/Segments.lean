import Eva01.Fiber.Switch

/-!
Coroutines: fibers whose code is a sequence of segments, called by the main fiber.

The body of a fiber is a finite sequence of segments, each some work that ends with `Yield`,
`YieldReady`, a return or an exception (`Body`). The main fiber makes the fibers and then calls them
in some order. `Coroutine.state` and `Coroutine.work` say what is expected of a fiber after `k`
calls; they know nothing of the other fibers. The thread is observed whenever the main fiber executes:
then every fiber is where they say (`Between`), whatever the order of the calls was
(`calls_independent`).

A fiber that is constructed with `is_main` is none of them: `call()` takes it for the main fiber, and
returns at once.
-/

namespace Eva01.Fibers

open Eva01.Lib.Runs
open Eva01.Runtime (State)

variable {ℓ : Type*}

/-! ### Bodies -/

/-- A segment, and the state its end leaves the fiber in. -/
structure Segment (ℓ : Type*) where
  work : List ℓ
  ends : State

/-- The code of a fiber. -/
inductive Body (ℓ : Type*)
  /-- The last segment: a return, or an exception. -/
  | last (work : List ℓ) (throws : Bool)
  /-- A segment that ends with `YieldReady()` or with `Yield()`. -/
  | seg (work : List ℓ) (ready : Bool) (rest : Body ℓ)

namespace Body

def first : Body ℓ → Segment ℓ
  | .last work throws => ⟨work, if throws then .except else .term⟩
  | .seg work ready _ => ⟨work, if ready then .ready else .suspend⟩

def rest : Body ℓ → Option (Body ℓ)
  | .last _ _ => none
  | .seg _ _ rest => some rest

def segments : Body ℓ → List (Segment ℓ)
  | .last work throws => [(Body.last work throws).first]
  | .seg work ready rest => (Body.seg work ready rest).first :: rest.segments

/-- The body, in the midst of its first segment. -/
def setWork : Body ℓ → List ℓ → Body ℓ
  | .last _ throws, work => .last work throws
  | .seg _ ready rest, work => .seg work ready rest

/-- What is left of the body after `k` segments. -/
def left (b : Body ℓ) : ℕ → Option (Body ℓ)
  | 0 => some b
  | k + 1 => (b.left k).bind rest

end Body

structure Coroutine (ℓ : Type*) where
  body : Body ℓ
  isMain : Bool := false

namespace Coroutine

/-- The segments that `k` calls of the main fiber run. -/
def played (c : Coroutine ℓ) (k : ℕ) : List (Segment ℓ) :=
  if c.isMain then [] else c.body.segments.take k

/-- The state after `k` calls. -/
def state (c : Coroutine ℓ) (k : ℕ) : State :=
  (c.played k).getLast?.elim .ready Segment.ends

/-- The work done in `k` calls. -/
def work (c : Coroutine ℓ) (k : ℕ) : List ℓ :=
  (c.played k).flatMap Segment.work

end Coroutine

/-! ### The program -/

/-- The points of the code: the main fiber has fibers to make and to call; another fiber has the rest
of its body before it. -/
inductive Point (ℓ : Type*)
  | main (cs : List (Coroutine ℓ)) (fs : List ℕ)
  | body (b : Body ℓ)

def Point.op : Point ℓ → Op (Point ℓ) ℓ
  | .main (c :: cs) fs => .make (.body c.body) c.isMain fun _ => .main cs fs
  | .main [] (f :: fs) => .call f (.main [] fs)
  | .main [] [] => .ret
  | .body (.last (a :: work) throws) => .work a (.body (.last work throws))
  | .body (.last [] throws) => if throws then .throw else .ret
  | .body (.seg (a :: work) ready rest) => .work a (.body (.seg work ready rest))
  | .body (.seg [] ready rest) => if ready then .yieldReady (.body rest) else .yield (.body rest)

/-- The fibers are made, and called in the order `fs`. -/
def program (cs : List (Coroutine ℓ)) (fs : List ℕ) : Thread (Point ℓ) ℓ :=
  Thread.start (.main cs fs)

/-- The main fiber executes, or has ended. -/
def InMain (s : Thread (Point ℓ) ℓ) : Prop :=
  (∃ k, s.control = .code 0 k) ∨ s.control = .exited 0

/-- The main fiber does not call a fiber that is done. -/
def CallsLive (s : Thread (Point ℓ) ℓ) (_ : Unit) : Prop :=
  ∀ f fs, s.control = .code 0 (.main [] (f :: fs)) → (s.fibers f).state.isDone = false

/-- The work that the fiber `f` did. -/
def Thread.workOf (s : Thread (Point ℓ) ℓ) (f : ℕ) : List ℓ :=
  (s.trace.filter fun e => e.1 = f).map Prod.snd

/-! ### Where a coroutine is -/

namespace Body

theorem segments_eq (b : Body ℓ) : b.segments = b.first :: b.rest.elim [] segments := by
  cases b <;> rfl

theorem drop_segments (b : Body ℓ) (k : ℕ) : b.segments.drop k = (b.left k).elim [] segments := by
  induction k with
  | zero => rfl
  | succ k ih =>
    rw [← List.tail_drop, ih, left]
    cases b.left k with
    | none => rfl
    | some b' =>
      rw [Option.elim_some, segments_eq b', Option.bind_some]
      rfl

theorem getElem?_segments {b b' : Body ℓ} {k : ℕ} (h : b.left k = some b') :
    b.segments[k]? = some b'.first := by
  rw [← List.head?_drop, drop_segments, h, Option.elim_some, segments_eq b']
  rfl

theorem take_segments {b b' : Body ℓ} {k : ℕ} (h : b.left k = some b') :
    b.segments.take (k + 1) = b.segments.take k ++ [b'.first] := by
  rw [List.take_add_one, getElem?_segments h]
  rfl

theorem setWork_first (b : Body ℓ) : b.setWork b.first.work = b := by
  cases b <;> rfl

theorem isDone_getLast? (b : Body ℓ) :
    ∃ sg, b.segments.getLast? = some sg ∧ sg.ends.isDone = true := by
  induction b with
  | last work throws => exact ⟨_, rfl, by cases throws <;> rfl⟩
  | seg work ready rest ih =>
    obtain ⟨sg, hsg, hdone⟩ := ih
    refine ⟨sg, ?_, hdone⟩
    rw [segments, List.getLast?_cons, hsg]
    rfl

end Body

namespace Coroutine

variable {c : Coroutine ℓ} {b : Body ℓ} {k : ℕ}

theorem exists_left (hm : c.isMain = false) (h : (c.state k).isDone = false) :
    ∃ b, c.body.left k = some b := by
  cases hl : c.body.left k with
  | some b => exact ⟨b, rfl⟩
  | none =>
    -- all segments have been run, and the last one ended it
    have hd := c.body.drop_segments k
    rw [hl, Option.elim_none] at hd
    obtain ⟨sg, hsg, hdone⟩ := c.body.isDone_getLast?
    have ht : c.played k = c.body.segments := by
      rw [played, hm, if_neg Bool.false_ne_true, List.take_of_length_le (List.drop_eq_nil_iff.mp hd)]
    rw [state, ht, hsg, Option.elim_some, hdone] at h
    cases h

theorem state_succ (hm : c.isMain = false) (h : c.body.left k = some b) :
    c.state (k + 1) = b.first.ends := by
  simp [state, played, hm, Body.take_segments h]

theorem work_succ (hm : c.isMain = false) (h : c.body.left k = some b) :
    c.work (k + 1) = c.work k ++ b.first.work := by
  simp [work, played, hm, Body.take_segments h]

theorem state_of_left (hm : c.isMain = false) (h : c.body.left k = some b) :
    c.state k = .ready ∨ c.state k = .suspend := by
  cases k with
  | zero => simp [state, played]
  | succ k =>
    obtain ⟨b', hb', hrest⟩ := Option.bind_eq_some_iff.mp h
    rw [state_succ hm hb']
    cases b' with
    | last work throws => cases hrest
    | seg work ready rest => cases ready <;> simp [Body.first]

/-- The fiber object of the coroutine `c`, numbered `f`, after `k` calls. -/
def fiber (c : Coroutine ℓ) (f k : ℕ) : Fiber (Point ℓ) where
  state := c.state k
  ctx :=
    if c.isMain ∨ k = 0 then .entry
    else (c.body.left k).elim (.last f) fun b => .at f (.body b)
  func := some (.body c.body)
  main := c.isMain

theorem fiber_main (hm : c.isMain = true) (f k k' : ℕ) : c.fiber f k = c.fiber f k' := by
  simp [fiber, state, played, hm]

theorem work_main (hm : c.isMain = true) (k k' : ℕ) : c.work k = c.work k' := by
  simp [work, played, hm]

end Coroutine

/-- Where the fiber `f` is, behind the first segment of `b`. -/
def Body.behind (b : Body ℓ) (f : ℕ) : Cont (Point ℓ) :=
  b.rest.elim (.last f) fun b => .at f (.body b)

theorem Coroutine.fiber_succ {c : Coroutine ℓ} {b : Body ℓ} {k : ℕ} (hm : c.isMain = false)
    (h : c.body.left k = some b) (f : ℕ) :
    c.fiber f (k + 1) = { c.fiber f k with state := b.first.ends, ctx := b.behind f } := by
  simp [fiber, state_succ hm h, hm, Body.left, h, Body.behind]

/-! ### One call -/

section Call

variable {s t : Thread (Point ℓ) ℓ} {f : ℕ} {b : Body ℓ} {k : Point ℓ}

theorem until_work (hf : f ≠ 0) (work : List ℓ) (trace : List (ℕ × ℓ))
    (h : Until (Thread.step Point.op) InMain
      { s with control := .code f (.body (b.setWork [])), trace := trace ++ work.map (Prod.mk f) } t) :
    Until (Thread.step Point.op) InMain
      { s with control := .code f (.body (b.setWork work)), trace := trace } t := by
  induction work generalizing trace with
  | nil => simpa using h
  | cons a work ih =>
    have hstep : Thread.step Point.op
        { s with control := .code f (.body (b.setWork (a :: work))), trace := trace } () =
        some { s with control := .code f (.body (b.setWork work)), trace := trace ++ [(f, a)] } := by
      cases b <;> rfl
    refine .head (by simp [InMain, hf]) hstep (ih _ ?_)
    simpa using h

theorem until_end (hf : f ≠ 0) (ht : s.tFiber = f) (hk : (s.fibers 0).ctx = .at 0 k) :
    Until (Thread.step Point.op) InMain { s with control := .code f (.body (b.setWork [])) }
      (s.leave f b.first.ends (b.behind f)) := by
  have hback : InMain (s.leave f b.first.ends (b.behind f)) :=
    .inl ⟨k, Thread.control_leave hf hk⟩
  cases b with
  | last work throws =>
    have hstep : Thread.step Point.op { s with control := .code f (.body (.last [] throws)) } () =
        some { s with control := .finish f (if throws then .except else .term) } := by
      cases throws <;> simp [Thread.step, Point.op, Thread.exec, hf]
    refine .head (by simp [InMain, hf]) hstep (.head (by simp [InMain]) ?_ (.refl hback))
    exact congrArg some (Thread.finish_of_ne ht hf)
  | seg work ready rest =>
    refine .head (by simp [InMain, hf]) ?_ (.refl hback)
    cases ready <;> exact congrArg some (Thread.yieldAs_of_ne ht hf)

end Call

/-! ### Between two calls -/

theorem Thread.workOf_append {s t : Thread (Point ℓ) ℓ} {g : ℕ} {work : List ℓ}
    (h : t.trace = s.trace ++ work.map (Prod.mk g)) (f : ℕ) :
    t.workOf f = s.workOf f ++ if g = f then work else [] := by
  simp only [workOf, h, List.filter_append, List.map_append, List.filter_map, List.map_map]
  split_ifs with hg <;> simp [Function.comp_def, hg]

/-- The main fiber executes; every coroutine is where the calls so far have taken it. -/
structure Between (cs : List (Coroutine ℓ)) (calls : List ℕ) (s : Thread (Point ℓ) ℓ) : Prop where
  tFiber : s.tFiber = 0
  nextFiber : s.nextFiber = cs.length + 1
  main : (s.fibers 0).main = true ∧ (s.fibers 0).state = .running
  fibers : ∀ i c, cs[i]? = some c → s.fibers (i + 1) = c.fiber (i + 1) (calls.count (i + 1))
  work : ∀ i c, cs[i]? = some c → s.workOf (i + 1) = c.work (calls.count (i + 1))
  /-- What is not made has done nothing. -/
  idle : ∀ f, cs.length < f → s.workOf f = []
  thread : s.mainFunc = false

namespace Between

variable {cs : List (Coroutine ℓ)} {calls : List ℕ} {s s' t : Thread (Point ℓ) ℓ} {f i : ℕ}
  {c : Coroutine ℓ} {rest : List ℕ}

theorem start (cs : List (Coroutine ℓ)) (fs : List ℕ) : Between [] [] (program cs fs) where
  tFiber := rfl
  nextFiber := rfl
  main := ⟨rfl, rfl⟩
  fibers i c h := by simp at h
  work i c h := by simp at h
  idle f _ := rfl
  thread := rfl

theorem getElem?_concat {c' : Coroutine ℓ} (h : (cs ++ [c])[i]? = some c') :
    i < cs.length ∧ cs[i]? = some c' ∨ i = cs.length ∧ c' = c := by
  rw [List.getElem?_append] at h
  split_ifs at h with hi
  · exact .inl ⟨hi, h⟩
  · obtain ⟨hlt, rfl⟩ := List.getElem?_eq_some_iff.mp h
    rw [List.length_singleton] at hlt
    exact .inr ⟨by omega, by simp⟩

theorem make (hs : Between cs [] s) (c : Coroutine ℓ) (k : Point ℓ) :
    Between (cs ++ [c]) [] { s.make (.body c.body) c.isMain with control := .code 0 k } where
  tFiber := hs.tFiber
  nextFiber := by simp [Thread.make, hs.nextFiber]
  main := by
    have h0 : 0 ≠ s.nextFiber := by simp [hs.nextFiber]
    simpa [Thread.make, Function.update_of_ne h0] using hs.main
  fibers i c' h := by
    rcases getElem?_concat h with ⟨hi, h⟩ | ⟨rfl, rfl⟩
    · have hne : i + 1 ≠ s.nextFiber := by
        rw [hs.nextFiber]
        omega
      simpa [Thread.make, Function.update_of_ne hne] using hs.fibers i c' h
    · simp [Thread.make, hs.nextFiber, Coroutine.fiber, Coroutine.state, Coroutine.played]
  work i c' h := by
    rcases getElem?_concat h with ⟨-, h⟩ | ⟨rfl, rfl⟩
    · exact hs.work i c' h
    · refine (hs.idle (cs.length + 1) (Nat.lt_succ_self _)).trans ?_
      simp [Coroutine.work, Coroutine.played]
  idle f hf := hs.idle f (by
    rw [List.length_append] at hf
    omega)
  thread := hs.thread

theorem skip (hs : Between cs calls s) (hf : ∀ i c, cs[i]? = some c → f = i + 1 → c.isMain = true)
    (k : Point ℓ) : Between cs (calls ++ [f]) { s with control := .code 0 k } where
  tFiber := hs.tFiber
  nextFiber := hs.nextFiber
  main := hs.main
  fibers i c h := by
    rw [hs.fibers i c h]
    by_cases hi : f = i + 1
    · exact Coroutine.fiber_main (hf i c h hi) ..
    · simp [List.count_append, hi]
  work i c h := by
    refine (hs.work i c h).trans ?_
    by_cases hi : f = i + 1
    · exact Coroutine.work_main (hf i c h hi) ..
    · simp [List.count_append, hi]
  idle := hs.idle
  thread := hs.thread

theorem played (hs : Between cs calls s) (hc : cs[i]? = some c) (hm : c.isMain = false) {b : Body ℓ}
    (hb : c.body.left (calls.count (i + 1)) = some b) (htf : t.tFiber = 0)
    (hnext : t.nextFiber = s.nextFiber)
    (hmain : (t.fibers 0).main = true ∧ (t.fibers 0).state = .running)
    (hself : t.fibers (i + 1) =
      { s.fibers (i + 1) with state := b.first.ends, ctx := b.behind (i + 1) })
    (hothers : ∀ f, f ≠ 0 → f ≠ i + 1 → t.fibers f = s.fibers f)
    (htrace : t.trace = s.trace ++ b.first.work.map (Prod.mk (i + 1)))
    (hthread : t.mainFunc = s.mainFunc) : Between cs (calls ++ [i + 1]) t where
  tFiber := htf
  nextFiber := hnext.trans hs.nextFiber
  main := hmain
  fibers j c' h := by
    by_cases hj : j = i
    · subst hj
      cases hc.symm.trans h
      rw [hself, hs.fibers j c hc, List.count_append, List.count_singleton_self,
        Coroutine.fiber_succ hm hb]
    · rw [hothers _ (by omega) (by omega), hs.fibers j c' h]
      simp [List.count_append, Ne.symm hj]
  work j c' h := by
    rw [Thread.workOf_append htrace, hs.work j c' h]
    by_cases hj : j = i
    · subst hj
      cases hc.symm.trans h
      rw [if_pos rfl, List.count_append, List.count_singleton_self, Coroutine.work_succ hm hb]
    · simp [List.count_append, Ne.symm hj]
  idle f hf := by
    have hi : i < cs.length := (List.getElem?_eq_some_iff.mp hc).1
    rw [Thread.workOf_append htrace, hs.idle f hf, if_neg (by omega), List.append_nil]
  thread := hthread.trans hs.thread

theorem control_enter (hs : Between cs calls s) (hc : cs[i]? = some c) (hm : c.isMain = false)
    {b : Body ℓ} (hb : c.body.left (calls.count (i + 1)) = some b) (here : Cont (Point ℓ)) :
    (s.enter here (i + 1)).control = .code (i + 1) (.body b) := by
  have hfib := hs.fibers i c hc
  rcases hk : calls.count (i + 1) with _ | k
  · rw [hk] at hb hfib
    cases hb
    rw [Thread.control_enter_entry (Nat.succ_ne_zero i) (by simp [hfib, Coroutine.fiber]), hfib]
    rfl
  · rw [hk] at hb hfib
    exact Thread.control_enter_at (Nat.succ_ne_zero i) (by simp [hfib, Coroutine.fiber, hm, hb])

/-- **One call.** The coroutine runs its next segment, and then the main fiber goes on. -/
theorem call (hs : Between cs calls s) (hc : cs[i]? = some c) (hm : c.isMain = false) {b : Body ℓ}
    (hb : c.body.left (calls.count (i + 1)) = some b) (rest : List ℕ) :
    ∃ t, Until (Thread.step Point.op) InMain (s.call 0 (i + 1) (.main [] rest)) t ∧
      Between cs (calls ++ [i + 1]) t ∧ t.control = .code 0 (.main [] rest) ∧
      t.trace = s.trace ++ b.first.work.map (Prod.mk (i + 1)) := by
  have hfib := hs.fibers i c hc
  have hcall : s.call 0 (i + 1) (.main [] rest) = s.enter (.at 0 (.main [] rest)) (i + 1) := by
    have hst := Coroutine.state_of_left hm hb
    rw [Thread.call_of_not (by simp [hfib, Coroutine.fiber, hm]), if_neg]
    rcases hst with hst | hst <;> simp [hfib, Coroutine.fiber, hst]
  set e := s.enter (.at 0 (.main [] rest)) (i + 1) with he
  have hef : e.fibers = _ := Thread.fibers_enter (Nat.succ_ne_zero i)
  have hctx : (e.fibers 0).ctx = .at 0 (.main [] rest) := by rw [hef, Function.update_self]
  have hstart : e = { e with control := .code (i + 1) (.body (b.setWork b.first.work))
                             trace := s.trace } := by
    rw [Body.setWork_first, ← hs.control_enter hc hm hb (.at 0 (.main [] rest))]
    rfl
  -- the work of the segment, and its end
  set v := { e with trace := s.trace ++ b.first.work.map (Prod.mk (i + 1)) } with hv
  have hend : Until (Thread.step Point.op) InMain
      { v with control := .code (i + 1) (.body (b.setWork [])) }
      (v.leave (i + 1) b.first.ends (b.behind (i + 1))) :=
    until_end (Nat.succ_ne_zero i) rfl hctx
  have huntil := until_work (Nat.succ_ne_zero i) b.first.work s.trace hend
  refine ⟨v.leave (i + 1) b.first.ends (b.behind (i + 1)), ?_, ?_, ?_, rfl⟩
  · rw [hcall, hstart]
    exact huntil
  · refine hs.played hc hm hb rfl rfl ?_ ?_ ?_ rfl ?_
    · rw [Thread.fibers_leave, Function.update_of_ne (Nat.succ_ne_zero i).symm, hv, hef,
        Function.update_self]
      exact hs.main
    · rw [Thread.fibers_leave, Function.update_self, hv, hef,
        Function.update_of_ne (Nat.succ_ne_zero i), Function.update_self]
    · intro f hf hfi
      rw [Thread.fibers_leave, Function.update_of_ne hfi, hv, hef, Function.update_of_ne hf,
        Function.update_of_ne hfi]
    · have hleave : (v.leave (i + 1) b.first.ends (b.behind (i + 1))).mainFunc = v.mainFunc :=
        Thread.mainFunc_leave (Nat.succ_ne_zero i) hctx
      exact hleave.trans (Thread.mainFunc_enter (Nat.succ_ne_zero i))
  · exact Thread.control_leave (Nat.succ_ne_zero i) hctx

theorem call_returns (hs : Between cs calls s) (hlive : (s.fibers f).state.isDone = false)
    (hf : f < s.nextFiber) (rest : List ℕ) :
    ∃ t, Until (Thread.step Point.op) InMain (s.call 0 f (.main [] rest)) t ∧
      Between cs (calls ++ [f]) t ∧ t.control = .code 0 (.main [] rest) := by
  have hskip : (s.fibers f).main = true →
      (∀ i c, cs[i]? = some c → f = i + 1 → c.isMain = true) →
      ∃ t, Until (Thread.step Point.op) InMain (s.call 0 f (.main [] rest)) t ∧
        Between cs (calls ++ [f]) t ∧ t.control = .code 0 (.main [] rest) := by
    intro hmain hall
    rw [Thread.call_skip hs.tFiber hmain]
    exact ⟨_, .refl (.inl ⟨_, rfl⟩), hs.skip hall _, rfl⟩
  rcases f with _ | i
  · exact hskip hs.main.1 fun i c _ h => absurd h (by omega)
  have hi : i < cs.length := by
    rw [hs.nextFiber] at hf
    omega
  obtain ⟨c, hc⟩ : ∃ c, cs[i]? = some c := ⟨_, List.getElem?_eq_getElem hi⟩
  have hfib := hs.fibers i c hc
  cases hm : c.isMain with
  | true =>
    refine hskip (by simp [hfib, Coroutine.fiber, hm]) fun j c' hj hij => ?_
    cases Nat.succ.inj hij
    cases hc.symm.trans hj
    exact hm
  | false =>
    rw [hfib] at hlive
    obtain ⟨b, hb⟩ := Coroutine.exists_left hm hlive
    obtain ⟨t, ht, hbetween, hctl, -⟩ := hs.call hc hm hb rest
    exact ⟨t, ht, hbetween, hctl⟩

end Between

/-! ### Every order of the calls -/

/-- The main fiber is at a point of its code, with the fibers made and called so far behind it; or
it has ended. -/
def Observed (cs : List (Coroutine ℓ)) (fs : List ℕ) (s : Thread (Point ℓ) ℓ) : Prop :=
  (∃ made todo calls rest, cs = made ++ todo ∧ fs = calls ++ rest ∧ (todo = [] ∨ calls = []) ∧
    Between made calls s ∧ s.control = .code 0 (.main todo rest)) ∨ s.control = .exited 0

theorem Observed.step {cs : List (Coroutine ℓ)} {fs : List ℕ} {s s' : Thread (Point ℓ) ℓ}
    (hs : Observed cs fs s) (hlive : CallsLive s ()) (h : s.step Point.op () = some s') :
    ∃ t, Until (Thread.step Point.op) InMain s' t ∧ Observed cs fs t := by
  rcases hs with ⟨made, todo, calls, rest, hcs, hfs, horder, hs, hctl⟩ | hctl
  · rw [Thread.step, hctl] at h
    cases todo with
    | cons c todo =>
      cases h
      obtain rfl : calls = [] := horder.resolve_left (List.cons_ne_nil _ _)
      refine ⟨_, .refl (.inl ⟨_, rfl⟩), .inl ⟨made ++ [c], todo, [], rest, ?_, hfs, .inr rfl,
        hs.make c _, rfl⟩⟩
      rw [hcs, List.append_assoc, List.singleton_append]
    | nil =>
      cases rest with
      | nil =>
        cases h
        have hend : (if 0 = 0 ∧ s.mainFunc = false then .exited 0
            else .finish 0 .term : Control (Point ℓ)) = .exited 0 := if_pos ⟨rfl, hs.thread⟩
        exact ⟨_, .refl (.inr hend), .inr hend⟩
      | cons f rest =>
        simp only [Point.op, Thread.exec] at h
        split_ifs at h with hf
        cases h
        obtain ⟨t, ht, hbetween, hctl'⟩ := hs.call_returns (hlive f rest hctl) hf rest
        refine ⟨t, ht, .inl ⟨made, [], calls ++ [f], rest, hcs, ?_, .inl rfl, hbetween, hctl'⟩⟩
        rw [hfs, List.append_assoc, List.singleton_append]
  · rw [Thread.step, hctl] at h
    cases h

theorem Between.of_reach {cs : List (Coroutine ℓ)} {fs rest : List ℕ} {s : Thread (Point ℓ) ℓ}
    (h : Reach (Thread.step Point.op) CallsLive (program cs fs) s)
    (hctl : s.control = .code 0 (.main [] rest)) :
    ∃ calls, fs = calls ++ rest ∧ Between cs calls s := by
  have h₀ : ∃ t, Until (Thread.step Point.op) InMain (program cs fs) t ∧ Observed cs fs t :=
    ⟨_, .refl (.inl ⟨_, rfl⟩), .inl ⟨[], cs, [], fs, rfl, rfl, .inr rfl, .start cs fs, rfl⟩⟩
  have hobs := h.observed h₀ (fun _ hs hlive hstep => hs.step hlive hstep) (.inl ⟨_, hctl⟩)
  rcases hobs with ⟨made, todo, calls, rest', hcs, hfs, -, hs, hctl'⟩ | hctl'
  · cases hctl.symm.trans hctl'
    rw [List.append_nil] at hcs
    subst hcs
    exact ⟨calls, hfs, hs⟩
  · cases hctl.symm.trans hctl'

theorem callsLive_of_not_inMain {s : Thread (Point ℓ) ℓ} (h : ¬ InMain s) : CallsLive s () :=
  fun _ _ hctl => absurd (.inl ⟨_, hctl⟩) h

theorem exists_reach_made (cs : List (Coroutine ℓ)) (fs : List ℕ) :
    ∃ s, Reach (Thread.step Point.op) CallsLive (program cs fs) s ∧
      s.control = .code 0 (.main [] fs) := by
  have hmake : ∀ todo s, Reach (Thread.step Point.op) CallsLive (program cs fs) s →
      s.control = .code 0 (.main todo fs) →
      ∃ t, Reach (Thread.step Point.op) CallsLive (program cs fs) t ∧
        t.control = .code 0 (.main [] fs) := by
    intro todo
    induction todo with
    | nil => exact fun s hr hctl => ⟨s, hr, hctl⟩
    | cons c todo ih =>
      intro s hr hctl
      refine ih { s.make (.body c.body) c.isMain with control := .code 0 (.main todo fs) }
        (hr.tail (a := ()) (fun f fs hcall => ?_) ?_) rfl
      · cases hctl.symm.trans hcall
      · rw [Thread.step, hctl]
        rfl
  exact hmake cs _ .refl rfl

/-- Every coroutine has the state and has done the work of as many segments as it was called. -/
def AsCalled (cs : List (Coroutine ℓ)) (calls : List ℕ) (s : Thread (Point ℓ) ℓ) : Prop :=
  s.tFiber = 0 ∧ ∀ i c, cs[i]? = some c →
    (s.fibers (i + 1)).state = c.state (calls.count (i + 1)) ∧
      s.workOf (i + 1) = c.work (calls.count (i + 1))

theorem Between.asCalled {cs : List (Coroutine ℓ)} {calls : List ℕ} {s : Thread (Point ℓ) ℓ}
    (hs : Between cs calls s) : AsCalled cs calls s := by
  refine ⟨hs.tFiber, fun i c hc => ⟨?_, hs.work i c hc⟩⟩
  rw [hs.fibers i c hc]
  rfl

/-- The next call, of a coroutine that is not done: it runs exactly the next segment. -/
theorem Between.runs_next {cs : List (Coroutine ℓ)} {calls rest : List ℕ} {s : Thread (Point ℓ) ℓ}
    {i : ℕ} {c : Coroutine ℓ} (hs : Between cs calls s)
    (hctl : s.control = .code 0 (.main [] ((i + 1) :: rest))) (hc : cs[i]? = some c)
    (hm : c.isMain = false) (hlive : (s.fibers (i + 1)).state.isDone = false) :
    ∃ sg t, c.body.segments[calls.count (i + 1)]? = some sg ∧
      Reach (Thread.step Point.op) CallsLive s t ∧ t.control = .code 0 (.main [] rest) ∧
      t.tFiber = 0 ∧ t.trace = s.trace ++ sg.work.map (Prod.mk (i + 1)) ∧
      (t.fibers (i + 1)).state = sg.ends := by
  have hcalls : CallsLive s () := by
    intro f fs hcall
    cases hctl.symm.trans hcall
    exact hlive
  rw [hs.fibers i c hc] at hlive
  obtain ⟨b, hb⟩ := Coroutine.exists_left hm hlive
  obtain ⟨t, ht, hbetween, hctl', htrace⟩ := hs.call hc hm hb rest
  have hi : i < cs.length := (List.getElem?_eq_some_iff.mp hc).1
  have hstep : s.step Point.op () = some (s.call 0 (i + 1) (.main [] rest)) := by
    rw [Thread.step, hctl]
    exact if_pos (by rw [hs.nextFiber]; omega)
  have hreach : Reach (Thread.step Point.op) CallsLive s t :=
    ht.reach (fun _ => callsLive_of_not_inMain) (Reach.refl.tail hcalls hstep)
  refine ⟨b.first, t, Body.getElem?_segments hb, hreach, hctl', hbetween.tFiber, htrace, ?_⟩
  rw [(hbetween.asCalled.2 i c hc).1, List.count_append, List.count_singleton_self,
    Coroutine.state_succ hm hb]

/-- **Coroutines are independent.** Whenever the main fiber executes, it is `t_fiber`, and every
fiber has the state and has done the work of as many of its segments as it was called. The next call
of one that is not done comes back, having run exactly the next segment, and leaves the state that
the segment ends with. So in two runs in which a fiber was called equally often, its state and the
work it did are the same, whatever the other calls were and whenever they were made. -/
theorem calls_independent (cs : List (Coroutine ℓ)) (fs : List ℕ) :
    (∃ s, Reach (Thread.step Point.op) CallsLive (program cs fs) s ∧
      s.control = .code 0 (.main [] fs)) ∧
    (∀ s rest, Reach (Thread.step Point.op) CallsLive (program cs fs) s →
      s.control = .code 0 (.main [] rest) →
      ∃ calls, fs = calls ++ rest ∧ AsCalled cs calls s ∧
        ∀ i c rest', rest = (i + 1) :: rest' → cs[i]? = some c → c.isMain = false →
          (s.fibers (i + 1)).state.isDone = false →
          ∃ sg t, c.body.segments[calls.count (i + 1)]? = some sg ∧
            Reach (Thread.step Point.op) CallsLive s t ∧ t.control = .code 0 (.main [] rest') ∧
            t.tFiber = 0 ∧ t.trace = s.trace ++ sg.work.map (Prod.mk (i + 1)) ∧
            (t.fibers (i + 1)).state = sg.ends) ∧
    ∀ gs s t calls calls' rest rest' i c,
      Reach (Thread.step Point.op) CallsLive (program cs fs) s → fs = calls ++ rest →
      s.control = .code 0 (.main [] rest) →
      Reach (Thread.step Point.op) CallsLive (program cs gs) t → gs = calls' ++ rest' →
      t.control = .code 0 (.main [] rest') →
      cs[i]? = some c → calls.count (i + 1) = calls'.count (i + 1) →
      (s.fibers (i + 1)).state = (t.fibers (i + 1)).state ∧ s.workOf (i + 1) = t.workOf (i + 1) := by
  refine ⟨exists_reach_made cs fs, ?_, ?_⟩
  · intro s rest hr hctl
    obtain ⟨calls, hfs, hs⟩ := Between.of_reach hr hctl
    refine ⟨calls, hfs, hs.asCalled, ?_⟩
    rintro i c rest' rfl hc hm hlive
    exact hs.runs_next hctl hc hm hlive
  · intro gs s t calls calls' rest rest' i c hs hfs hctl ht hgs hctl' hc hcount
    obtain ⟨calls₁, hfs₁, hs⟩ := Between.of_reach hs hctl
    obtain ⟨calls₂, hgs₂, ht⟩ := Between.of_reach ht hctl'
    obtain rfl : calls = calls₁ := List.append_cancel_right (hfs.symm.trans hfs₁)
    obtain rfl : calls' = calls₂ := List.append_cancel_right (hgs.symm.trans hgs₂)
    obtain ⟨hst, hwork⟩ := hs.asCalled.2 i c hc
    obtain ⟨hst', hwork'⟩ := ht.asCalled.2 i c hc
    rw [hst, hwork, hst', hwork', hcount]
    exact ⟨rfl, rfl⟩

end Eva01.Fibers

import Eva01.Fiber.Owned
import Mathlib

/-!
Fibers live as long as they are needed.

The fiber that a worker calls is one that it has a shared pointer to, so it exists while its code
runs, although `call`, `yield` and `t_fiber` use plain pointers. `fibers_safe` says for any number
of workers and any order of their steps: no assertion of the fibers fails, the destructor's among
them, no fiber is used that is gone, no stack is used twice, and `GetThis` is the fiber whose code
calls it. For this a fiber may be woken only when it has switched out and its worker has looked at
its state. `woken_early` shows a fiber that is queued twice when somebody is faster than that.

A suspended fiber that nobody else points to stays forever (`abandoned_fiber_stays`).
-/

namespace Eva01.Fibers.Lifetime

open Eva01.Lib.Runs
open Eva01.Lib
open Eva01.Runtime (State)

variable {W : Type*}

/-! ### A worker on its own stack -/

section Loop

variable {x : Pool W} {w : W} {k : Kind} {f g : ℕ} {o o' : Obj} {p : Pc}

@[simp]
lemma Pool.objs_write : (x.write f o).objs f = some o := Function.update_self ..

@[simp]
lemma Pool.slot_write : (x.write f o).slot = x.slot := rfl

@[simp]
lemma Pool.objs_newFiber : x.newFiber.objs x.next = some {} := Function.update_self ..

lemma Pool.alive_newFiber (x : Pool W) (g : ℕ) : x.newFiber.Alive g ↔ x.Alive g ∨ g = x.next := by
  unfold Pool.Alive Pool.newFiber
  by_cases hg : g = x.next
  · subst hg
    simp
  · simp [hg]

lemma Pool.live_newFiber (x : Pool W) : x.newFiber.live = x.live + 1 := by
  have hinsert : (Finset.range (x.next + 1)).filter x.newFiber.Alive =
      insert x.next ((Finset.range x.next).filter x.Alive) := by
    ext g
    simp only [Finset.mem_filter, Finset.mem_insert, Finset.mem_range, Pool.alive_newFiber]
    constructor
    · rintro ⟨hlt, halive | rfl⟩
      · by_cases hg : g = x.next
        · exact .inl hg
        · exact .inr ⟨by omega, halive⟩
      · exact .inl rfl
    · rintro (rfl | ⟨hlt, halive⟩)
      · exact ⟨by omega, .inr rfl⟩
      · exact ⟨by omega, .inl halive⟩
  have hcard := congrArg Finset.card hinsert
  rwa [Finset.card_insert_of_notMem (by simp)] at hcard

/-- A worker on its own stack moves on, and nothing happens to its function and its idle fiber. -/
lemma Local.step {x' : Pool W} (h : Local x w) (hloop : (x.pc w).loops = true)
    (hfunc : (x.pc w).calls ≠ some .func) (hdiscard : x.pc w ≠ .discard) (hp : x'.pc w = p)
    (hplace : p.place = none) (hcur : x'.current w = none) (hobjs : x'.objs = x.objs)
    (hslot : ∀ k, k ≠ .task → x'.slot (w, k) = x.slot (w, k)) (hold : x'.old w = x.old w)
    (hpicked : ∀ k f o, p.picks = some k → x'.slot (w, k) = some f → x.objs f = some o →
      o.ctx ≠ .last)
    (hcalled : ∀ k, p.calls = some k → x'.slot (w, k) ≠ none)
    (hnull : ∀ k, p.lacks k → x'.slot (w, k) = none) : Local x' w := by
  rw [← hp] at hplace hpicked hcalled hnull
  refine Local.of_off hplace hcur ?_ ?_ hcalled ?_ hnull ?_
  · rwa [hobjs]
  · intro f o _ hs ho
    rw [hslot .func (by simp)] at hs
    rw [hobjs] at ho
    exact h.recycled f o hfunc hs ho
  · intro _
    rw [hslot .idle (by simp)]
    exact h.idle hloop
  · intro _
    rw [hold]
    exact h.old hdiscard

section

variable [Fintype W]

lemma Inv.newFiber_owned (h : Inv x) : Owned x.newFiber := by
  have hobj : ∀ {g}, g ≠ x.next → x.newFiber.objs g = x.objs g := fun hg =>
    Function.update_of_ne hg _ _
  refine ⟨h.owned.sound, ?_, h.owned.claims, ?_, ?_, fun w => ?_⟩
  · intro g hg
    have hlt : x.next + 1 ≤ g := hg
    rw [hobj (by omega)]
    exact h.owned.fresh g (by omega)
  · intro g o ho hoff
    by_cases hg : g = x.next
    · subst hg
      obtain rfl : {} = o := by simpa [Pool.newFiber] using ho
      exact ⟨rfl, rfl, rfl⟩
    · rw [hobj hg] at ho
      exact h.owned.parked g o ho hoff
  · intro g o hq ho
    have hne : g ≠ x.next := by
      rintro rfl
      exact h.next_not_queued hq
    rw [hobj hne] at ho
    exact h.owned.queued g o hq ho
  · refine (h.owned.worker w).congr rfl rfl rfl (fun _ => rfl) fun k g o hs ho => ?_
    have hne : g ≠ x.next := by
      rintro rfl
      exact h.slot_ne_next _ hs
    rwa [hobj hne] at ho

lemma Inv.refs_newFiber (h : Inv x) (g : ℕ) : x.newFiber.refs g = x.refs g := by
  unfold Pool.refs Pool.newFiber Pool.frames
  by_cases hg : g = x.next
  · subst hg
    simp only [Function.update_self, h.owned.fresh x.next le_rfl]
    rfl
  · simp only [Function.update_of_ne hg]

lemma Owned.queued_append (h : Owned x) (hctx : ∀ o, x.objs f = some o → o.ctx ≠ .last) :
    ∀ g o, Task.fiber g ∈ x.queue ++ [Task.fiber f] → x.objs g = some o → o.ctx ≠ .last := by
  intro g o hg ho
  obtain hg | hg := List.mem_append.1 hg
  · exact h.queued g o hg ho
  · obtain rfl : g = f := by simpa using hg
    exact hctx o ho

end

variable [DecidableEq W]

@[simp]
lemma Pool.slot_put (v : Option ℕ) : (x.put w k v).slot (w, k) = v := Function.update_self ..

@[simp]
lemma Pool.slot_goto : (x.goto w p).slot = x.slot := rfl

@[simp]
lemma Pool.objs_goto : (x.goto w p).objs = x.objs := rfl

@[simp]
lemma Pool.objs_put (v : Option ℕ) : (x.put w k v).objs = x.objs := rfl

lemma Pool.slot_put_of_ne {v : Option ℕ} {k' : Kind} (h : k' ≠ k) :
    (x.put w k v).slot (w, k') = x.slot (w, k') :=
  Function.update_of_ne (fun heq => h (Prod.mk.inj heq).2) _ _

lemma Pool.slot_put_of_other {v : Option ℕ} {k' : Kind} {w' : W} (h : w' ≠ w) :
    (x.put w k v).slot (w', k') = x.slot (w', k') :=
  Function.update_of_ne (fun heq => h (Prod.mk.inj heq).1) _ _

@[simp]
lemma Pool.pc_goto : (x.goto w p).pc w = p := Function.update_self ..

lemma Pool.put_none (h : x.slot (w, k) = none) : x.put w k none = x := by
  unfold Pool.put
  rw [← h, Function.update_eq_self]

variable [Fintype W]

lemma Inv.drop (h : Inv x) (hw : (x.pc w).place = none)
    (hlocal : x.current w = none → Local ((x.goto w p).put w k none) w) :
    Inv ((x.goto w p).drop w k) := by
  have howned : Owned ((x.goto w p).put w k none) := by
    refine h.owned.move w hw h.owned.sound rfl rfl rfl rfl
      (fun w' hw' k' => Pool.slot_put_of_other hw') (fun _ _ => rfl) (fun g => ?_) h.owned.queued
      fun _ hcur => hlocal hcur
    have hput := (x.goto w p).claims_put w k none g
    have hle : (x.goto w p).claims g ≤ 1 := h.owned.claims g
    simp only [reduceCtorEq, if_false] at hput
    omega
  unfold Pool.drop
  cases hs : (x.goto w p).slot (w, k) with
  | none =>
    rw [Pool.put_none hs] at howned
    exact ⟨howned, h.exact, h.total⟩
  | some f =>
    refine Inv.release howned (h.exact.move (fun _ => Iff.rfl) fun g => ?_) h.total
    have hput := (x.goto w p).refs_put w k none g
    have hrefs : (x.goto w p).refs g = x.refs g := rfl
    rw [hs, hrefs] at hput
    simp only [Option.some.injEq, reduceCtorEq, if_false, eq_comm (a := f)] at hput
    omega

lemma Inv.goto (h : Inv x) (hw : (x.pc w).place = none)
    (hlocal : x.current w = none → Local (x.goto w p) w) : Inv (x.goto w p) :=
  ⟨h.owned.move w hw h.owned.sound rfl rfl rfl rfl (fun _ _ _ => rfl) (fun _ _ => rfl)
    h.owned.claims h.owned.queued fun _ hcur => hlocal hcur, h.exact, h.total⟩

lemma Inv.make (h : Inv x) (hw : (x.pc w).place = none) (hk : x.slot (w, k) = none)
    (hlocal : x.current w = none → Local ((x.newFiber.put w k (some x.next)).goto w p) w) :
    Inv ((x.newFiber.put w k (some x.next)).goto w p) := by
  have hput : ∀ g, (x.newFiber.put w k (some x.next)).refs g =
      x.refs g + if g = x.next then 1 else 0 := by
    intro g
    have hput := x.newFiber.refs_put w k (some x.next) g
    rw [show x.newFiber.slot (w, k) = none from hk, h.refs_newFiber] at hput
    simpa [eq_comm] using hput
  refine ⟨h.newFiber_owned.move w hw h.owned.sound rfl rfl rfl rfl
    (fun w' hw' k' => Pool.slot_put_of_other hw') (fun _ _ => rfl) (fun g => ?_)
    h.newFiber_owned.queued fun _ hcur => hlocal hcur,
    h.exact.create ?_ x.alive_newFiber hput, ?_⟩
  · have hclaims := x.newFiber.claims_put w k (some x.next) g
    have hle : x.newFiber.claims g ≤ 1 := h.owned.claims g
    have hzero := h.refs_next
    rw [show x.newFiber.slot (w, k) = none from hk] at hclaims
    show (x.newFiber.put w k (some x.next)).claims g ≤ 1
    by_cases hg : g = x.next
    · subst hg
      have hnew : x.newFiber.claims x.next = x.claims x.next := rfl
      unfold Pool.refs at hzero
      unfold Pool.claims at hnew hclaims ⊢
      simp at hclaims
      omega
    · simp [eq_comm, hg] at hclaims
      omega
  · unfold Pool.Alive
    rw [h.owned.fresh x.next le_rfl]
    simp
  · show x.total + 1 = x.newFiber.live
    rw [x.live_newFiber, h.total]

lemma Inv.reset (h : Inv x) (hg : x.slot (w, .func) = some g) (hw : (x.pc w).place = none)
    (ho : x.objs g = some o) {func : Bool} (hfrom : o.main = false ∧ o.frame = false)
    (hlocal : x.current w = none →
      Local ((x.write g { o with state := .ready, ctx := .entry, func := func }).goto w p) w) :
    Inv ((x.write g { o with state := .ready, ctx := .entry, func := func }).goto w p) := by
  have howned := h.owned.reset hg hw ho { o with state := .ready, ctx := .entry, func := func }
    ⟨rfl, hfrom⟩ rfl
  refine ⟨howned.move w hw h.owned.sound rfl rfl rfl rfl (fun _ _ _ => rfl) (fun _ _ => rfl)
    howned.claims howned.queued fun _ hcur => hlocal hcur,
    h.exact.move (Pool.alive_write ho _) fun f => ?_, h.total.trans (Pool.live_write ho _).symm⟩
  exact Nat.add_right_cancel
    (Pool.refs_write ho { o with state := .ready, ctx := .entry, func := func } f)

lemma Obj.Parked.last_iff (h : o.Parked) : o.ctx = .last ↔ o.state.isDone = true := by
  unfold Obj.Parked at h
  split at h
  · rename_i hctx
    simp [hctx, h.1, Runtime.State.isDone]
  · rename_i hctx
    obtain ⟨hs | hs, -⟩ := h <;> simp [hctx, hs, Runtime.State.isDone]
  · rename_i hctx
    exact iff_of_true hctx h.1
  · exact h.elim

lemma Inv.toIdle (h : Inv x) (hpc : x.pc w = .chosen) : Inv (x.toIdle w) := by
  have hl := h.owned.worker w
  have hplace : (x.pc w).place = none := by simp [hpc]
  obtain ⟨i, hi⟩ := Option.ne_none_iff_exists'.1 (hl.idle (by simp [hpc]))
  obtain ⟨o, ho⟩ := h.alive_of_slot hi
  have hstep : ∀ {p : Pc}, p.place = none → (∀ k, p.picks = some k → k = .idle) →
      (∀ k, p.calls = some k → k = .idle) → (∀ k, ¬ p.lacks k) →
      (p.picks = some .idle → o.ctx ≠ .last) → Inv (x.goto w p) := by
    intro p hp hpick hcall hlack hctx
    refine h.goto hplace fun hcur => hl.step (by simp [hpc]) (by simp [hpc]) (by simp [hpc])
      Pool.pc_goto hp hcur rfl (fun _ _ => rfl) rfl ?_ ?_ fun k hk => absurd hk (hlack k)
    · intro k f o₁ hk hs ho₁
      obtain rfl := hpick k hk
      obtain rfl : i = f := Option.some.inj (hi.symm.trans hs)
      obtain rfl : o = o₁ := Option.some.inj (ho.symm.trans ho₁)
      exact hctx hk
    · intro k hk
      obtain rfl := hcall k hk
      exact hl.idle (by simp [hpc])
  unfold Pool.toIdle
  rw [hi]
  dsimp only
  rw [ho]
  dsimp only
  split
  · exact hstep rfl (by simp) (by simp) (by simp) (by simp)
  · rename_i hdone
    refine hstep rfl (by simp) (by simp) (by simp) fun _ hlast => hdone ?_
    exact (h.owned.parked_of_slot hi hplace ho).last_iff.1 hlast

/-- The section that takes a task: the fiber comes from the head of the queue, if there is one. -/
lemma Inv.take (h : Inv x) (hpc : x.pc w = .select) (rest : List Task) (job : Bool) (v : Option ℕ)
    (hcount : ∀ g, x.queue.count (Task.fiber g) =
      rest.count (Task.fiber g) + if v = some g then 1 else 0) :
    Inv (({ x with queue := rest, job := Function.update x.job w job }.put w .task v).goto w
      .chosen) := by
  have hl := h.owned.worker w
  have hplace : (x.pc w).place = none := by simp [hpc]
  have hnull : x.slot (w, .task) = none := hl.null .task (by simp [hpc])
  have hsub : ∀ {g}, Task.fiber g ∈ rest → Task.fiber g ∈ x.queue := by
    intro g hg
    have hpos := List.count_pos_iff.2 hg
    exact List.count_pos_iff.1 (by rw [hcount]; omega)
  have hslots : ∀ g, RefCount.refs (Function.update x.slot (w, .task) v) g =
      RefCount.refs x.slot g + if v = some g then 1 else 0 := by
    intro g
    have hupd := RefCount.refs_update x.slot (w, .task) v g
    rw [hnull] at hupd
    simpa using hupd
  have hclaims : ∀ g, Pool.claims
      (({ x with queue := rest, job := Function.update x.job w job }.put w .task v).goto w .chosen) g =
        x.claims g := by
    intro g
    show RefCount.refs (Function.update x.slot (w, .task) v) g + rest.count (Task.fiber g) = _
    have hc := hcount g
    rw [hslots]
    unfold Pool.claims
    omega
  refine ⟨h.owned.move w hplace h.owned.sound rfl rfl rfl rfl
    (fun w' hw' k => Pool.slot_put_of_other hw') (fun _ _ => rfl) (fun g => ?_) (fun f o hf ho => ?_)
    fun hp hcur => ?_, h.exact.move (fun _ => Iff.rfl) fun g => ?_, h.total⟩
  · rw [hclaims]
    exact h.owned.claims g
  · exact h.owned.queued f o (hsub hf) ho
  · refine hl.step (by simp [hpc]) (by simp [hpc]) (by simp [hpc]) hp rfl hcur rfl
      (fun k hk => Pool.slot_put_of_ne hk) rfl ?_ (by simp) (by simp)
    intro k f o hk hs ho
    obtain rfl : Kind.task = k := by simpa using hk
    have hv : v = some f := by simpa using hs
    refine h.owned.queued f o (List.count_pos_iff.1 ?_) ho
    rw [hcount, if_pos hv]
    omega
  · have hc := hclaims g
    unfold Pool.claims at hc
    unfold Pool.refs
    show _ + RefCount.refs x.old g + _ + x.others.count g + x.frames g = _
    omega

lemma Inv.select (h : Inv x) (hpc : x.pc w = .select) : Inv (x.select w) := by
  have hnull : x.slot (w, .task) = none := (h.owned.worker w).null .task (by simp [hpc])
  unfold Pool.select
  split
  · have htake := h.take hpc x.queue false none (by simp)
    rwa [Pool.put_none (by exact hnull)] at htake
  · rename_i rest hq
    have htake := h.take hpc rest true none (by simp [hq])
    rwa [Pool.put_none (by exact hnull)] at htake
  · rename_i f rest hq
    have hmem : Task.fiber f ∈ x.queue := by rw [hq]; exact List.mem_cons_self
    obtain ⟨o, ho⟩ := h.alive_of_queue hmem
    rw [ho]
    dsimp only
    rw [if_neg (h.owned.parked_of_queue hmem ho).not_running]
    exact h.take hpc rest false (some f) (by simp [hq, List.count_cons])

lemma Inv.dispatch (h : Inv x) (hpc : x.pc w = .chosen) : Inv (x.dispatch w) := by
  have hl := h.owned.worker w
  have hplace : (x.pc w).place = none := by simp [hpc]
  unfold Pool.dispatch
  split
  · rename_i f hf
    obtain ⟨o, ho⟩ := h.alive_of_slot hf
    rw [ho]
    dsimp only
    split
    · exact h.toIdle hpc
    · refine h.goto hplace fun hcur => hl.step (by simp [hpc]) (by simp [hpc]) (by simp [hpc])
        Pool.pc_goto rfl hcur rfl (fun _ _ => rfl) rfl ?_ ?_ (by simp)
      · intro k f₁ o₁ hk
        obtain rfl : Kind.task = k := by simpa using hk
        exact hl.picked .task f₁ o₁ (by simp [hpc])
      · intro k hk
        obtain rfl : Kind.task = k := by simpa using hk
        show x.slot (w, .task) ≠ none
        simp [hf]
  · rename_i hnone
    split
    · split
      · rename_i g hg
        obtain ⟨o, ho⟩ := h.alive_of_slot hg
        rw [ho]
        dsimp only
        have hctx := hl.recycled g o (by simp [hpc]) hg ho
        have hparked := h.owned.parked_of_slot hg hplace ho
        simp only [Obj.Parked, hctx] at hparked
        refine h.reset hg hplace ho hparked.2 fun hcur => ?_
        refine Local.of_off (by simp) hcur ?_ (by simp) ?_ (fun _ => hl.idle (by simp [hpc]))
          (by simp) fun _ => hl.old (by simp [hpc])
        · intro k f o₁ hk hs ho₁
          obtain rfl : Kind.func = k := by simpa using hk
          obtain rfl : g = f := Option.some.inj (hg.symm.trans hs)
          simp only [Pool.objs_goto, Pool.objs_write, Option.some.injEq] at ho₁
          simp [← ho₁]
        · intro k hk
          obtain rfl : Kind.func = k := by simpa using hk
          show x.slot (w, .func) ≠ none
          simp [hg]
      · rename_i hfunc
        refine h.make hplace hfunc fun hcur => ?_
        refine Local.of_off (by simp) hcur ?_ (by simp) ?_ (fun _ => ?_) (by simp)
          fun _ => hl.old (by simp [hpc])
        · intro k f o₁ hk hs ho₁
          obtain rfl : Kind.func = k := by simpa using hk
          obtain rfl : x.next = f := by simpa using hs
          obtain rfl : {} = o₁ := by simpa using ho₁
          simp
        · intro k hk
          obtain rfl : Kind.func = k := by simpa using hk
          simp
        · rw [Pool.slot_goto, Pool.slot_put_of_ne (by simp)]
          exact hl.idle (by simp [hpc])
    · exact h.toIdle hpc

lemma refs_cleared (hf : x.slot (w, k) = some f) (g : ℕ) :
    RefCount.refs (Function.update x.slot (w, k) none) g + (if g = f then 1 else 0) =
      RefCount.refs x.slot g := by
  have hupd := RefCount.refs_update x.slot (w, k) none g
  rw [hf] at hupd
  simpa [eq_comm] using hupd

lemma count_append_fiber (q : List Task) (f g : ℕ) :
    (q ++ [Task.fiber f]).count (Task.fiber g) =
      q.count (Task.fiber g) + if g = f then 1 else 0 := by
  rw [List.count_append, List.count_singleton]
  by_cases hg : g = f
  · simp [hg]
  · simp [hg, Ne.symm hg]

/-- `func_fiber` goes into the queue, and is about to be reset. -/
lemma Inv.requeue (h : Inv x) (hpc : x.pc w = .back .func) (hf : x.slot (w, .func) = some f)
    (hctx : ∀ o, x.objs f = some o → o.ctx ≠ .last) :
    Inv (({ x.acquire f with queue := x.queue ++ [Task.fiber f]
                             old := Function.update x.old w (some f) }.put w .func none).goto w
      .discard) := by
  have hl := h.owned.worker w
  have hplace : (x.pc w).place = none := by simp [hpc]
  have hold : x.old w = none := hl.old (by simp [hpc])
  obtain ⟨o, ho⟩ := h.alive_of_slot hf
  have holds : ∀ g, RefCount.refs (Function.update x.old w (some f)) g =
      RefCount.refs x.old g + if g = f then 1 else 0 := by
    intro g
    have hupd := RefCount.refs_update x.old w (some f) g
    rw [hold] at hupd
    simpa [eq_comm] using hupd
  refine ⟨h.owned.move w (p := .discard) hplace h.owned.sound rfl rfl rfl rfl
    (fun w' hw' k => Pool.slot_put_of_other hw') (fun w' hw' => Function.update_of_ne hw' _ _)
    (fun g => ?_) (h.owned.queued_append hctx) fun hp hcur => ?_, ?_, h.total⟩
  · have hle := h.owned.claims g
    have hs := refs_cleared hf g
    unfold Pool.claims at hle ⊢
    show RefCount.refs (Function.update x.slot (w, .func) none) g +
      (x.queue ++ [Task.fiber f]).count (Task.fiber g) ≤ 1
    rw [count_append_fiber]
    omega
  · refine Local.of_off (by rw [hp]; rfl) hcur (by simp) ?_ (by simp) (fun _ => ?_) (by simp) (by simp)
    · intro g o₁ _ hs
      simp at hs
    · rw [Pool.slot_goto, Pool.slot_put_of_ne (by simp)]
      exact hl.idle (by simp [hpc])
  · refine h.exact.acquire (f := f) (by simp [Pool.Alive, ho]) (fun _ => Iff.rfl) fun g => ?_
    have hs := refs_cleared hf g
    unfold Pool.refs
    show RefCount.refs (Function.update x.slot (w, .func) none) g +
        RefCount.refs (Function.update x.old w (some f)) g +
        (x.queue ++ [Task.fiber f]).count (Task.fiber g) + x.others.count g + x.frames g = _
    rw [count_append_fiber, holds]
    omega

lemma Inv.reschedule (h : Inv x) (hpc : x.pc w = .back .task) (hf : x.slot (w, .task) = some f)
    (hctx : ∀ o, x.objs f = some o → o.ctx ≠ .last) :
    Inv (({ x with queue := x.queue ++ [Task.fiber f] }.put w .task none).goto w .top) := by
  have hl := h.owned.worker w
  have hplace : (x.pc w).place = none := by simp [hpc]
  refine ⟨h.owned.move w (p := .top) hplace h.owned.sound rfl rfl rfl rfl
    (fun w' hw' k => Pool.slot_put_of_other hw') (fun _ _ => rfl)
    (fun g => ?_) (h.owned.queued_append hctx) fun hp hcur => ?_,
    h.exact.move (fun _ => Iff.rfl) fun g => ?_, h.total⟩
  · have hle := h.owned.claims g
    have hs := refs_cleared hf g
    unfold Pool.claims at hle ⊢
    show RefCount.refs (Function.update x.slot (w, .task) none) g +
      (x.queue ++ [Task.fiber f]).count (Task.fiber g) ≤ 1
    rw [count_append_fiber]
    omega
  · exact hl.step (by simp [hpc]) (by simp [hpc]) (by simp [hpc]) hp rfl hcur rfl
      (fun k hk => Pool.slot_put_of_ne hk) rfl (by simp) (by simp) (by simp)
  · have hs := refs_cleared hf g
    unfold Pool.refs
    show RefCount.refs (Function.update x.slot (w, .task) none) g + RefCount.refs x.old g +
        (x.queue ++ [Task.fiber f]).count (Task.fiber g) + x.others.count g + x.frames g = _
    rw [count_append_fiber]
    omega

lemma Inv.comeBack (h : Inv x) (hpc : x.pc w = .back k) : Inv (x.comeBack w k) := by
  have hl := h.owned.worker w
  have hplace : (x.pc w).place = none := by simp [hpc]
  obtain ⟨f, hf⟩ := Option.ne_none_iff_exists'.1 (hl.called k (by simp [hpc]))
  obtain ⟨o, ho⟩ := h.alive_of_slot hf
  have hparked := h.owned.parked_of_slot hf hplace ho
  -- who is ready or suspended can go on
  have hctx : o.state.isDone = false → ∀ o₁, x.objs f = some o₁ → o₁.ctx ≠ .last := by
    intro hdone o₁ ho₁ hlast
    obtain rfl : o = o₁ := Option.some.inj (ho.symm.trans ho₁)
    rw [hparked.last_iff.1 hlast] at hdone
    cases hdone
  cases k with
  | task =>
    unfold Pool.comeBack
    rw [hf]
    dsimp only
    rw [ho]
    dsimp only
    split
    · rename_i hready
      exact h.reschedule hpc hf (hctx (by rw [hready]; rfl))
    · exact h.drop hplace fun hcur => hl.step (p := .top) (by simp [hpc]) (by simp [hpc])
        (by simp [hpc]) Pool.pc_goto rfl hcur rfl (fun k hk => Pool.slot_put_of_ne hk) rfl (by simp)
        (by simp) (by simp)
  | func =>
    unfold Pool.comeBack
    rw [hf]
    dsimp only
    rw [ho]
    dsimp only
    split
    · rename_i hready
      exact h.requeue hpc hf (hctx (by rw [hready]; rfl))
    · split
      · rename_i hdone
        have hlast := hparked.last_iff.2 hdone
        simp only [Obj.Parked, hlast] at hparked
        refine h.reset hf hplace ho hparked.2 fun hcur => ?_
        refine Local.of_off (by simp) hcur (by simp) ?_ (by simp) (fun _ => hl.idle (by simp [hpc]))
          (by simp) fun _ => hl.old (by simp [hpc])
        intro g o₁ _ hs ho₁
        obtain rfl : f = g := Option.some.inj (hf.symm.trans hs)
        simp only [Pool.objs_goto, Pool.objs_write, Option.some.injEq] at ho₁
        simp [← ho₁]
      · refine h.drop hplace fun hcur => ?_
        have hp : (((x.goto w .top).put w .func none).pc w) = .top := Pool.pc_goto
        refine Local.of_off (by rw [hp]; rfl) hcur (by simp [hp]) ?_ (by simp [hp]) (fun _ => ?_)
          (by simp [hp]) fun _ => hl.old (by simp [hpc])
        · intro g o₁ _ hs
          simp at hs
        · rw [Pool.slot_put_of_ne (by simp)]
          exact hl.idle (by simp [hpc])
  | idle =>
    refine h.goto hplace fun hcur => hl.step (by simp [hpc]) (by simp [hpc]) (by simp [hpc])
      Pool.pc_goto rfl hcur rfl (fun _ _ => rfl) rfl (by simp) (by simp) (by simp)

end Loop

/-! ### A worker on the stack of a fiber -/

section Stack

variable [Fintype W] {x x' : Pool W} {w : W} {k : Kind} {f g : ℕ} {o o' : Obj} {p : Pc}

/-- A step on a fiber that takes or gives up no pointer. -/
lemma Inv.rewrite (h : Inv x) (ho : x.objs f = some o) (o' : Obj) (howned : Owned x')
    (hframes : o'.frames = o.frames) (hobjs : x'.objs = (x.write f o').objs)
    (hcount : x'.count = x.count) (hnext : x'.next = x.next) (htotal : x'.total = x.total)
    (hslot : x'.slot = x.slot) (hold : x'.old = x.old) (hqueue : x'.queue = x.queue)
    (hothers : x'.others = x.others) : Inv x' := by
  have halive : ∀ g, x'.Alive g ↔ x.Alive g := by
    intro g
    unfold Pool.Alive
    rw [hobjs]
    exact Pool.alive_write ho o' g
  refine ⟨howned, ?_, ?_⟩
  · rw [hcount]
    refine h.exact.move halive fun g => ?_
    have hwrite := Pool.refs_write ho o' g
    rw [hframes] at hwrite
    have hrefs : x'.refs g = (x.write f o').refs g := by
      unfold Pool.refs Pool.frames
      rw [hobjs, hslot, hold, hqueue, hothers]
      rfl
    rw [hrefs]
    exact Nat.add_right_cancel hwrite
  · rw [htotal, h.total]
    unfold Pool.live
    simp only [halive, hnext]

lemma Pool.refs_others (x : Pool W) (l : List ℕ) (g : ℕ) :
    Pool.refs { x with others := l } g + x.others.count g = x.refs g + l.count g := by
  unfold Pool.refs Pool.frames
  dsimp only
  omega

lemma Inv.share (h : Inv x) (ho : x.objs f = some o) :
    Inv { x.acquire f with others := f :: x.others } := by
  refine ⟨h.owned.mono (fun _ _ ho => ho) h.owned.sound rfl rfl rfl rfl rfl rfl, ?_, h.total⟩
  refine h.exact.acquire (f := f) (by simp [Pool.Alive, ho]) (fun _ => Iff.rfl) fun g => ?_
  have hothers := (x.acquire f).refs_others (f :: x.others) g
  have hrefs : (x.acquire f).refs g = x.refs g := rfl
  have hlist : (x.acquire f).others = x.others := rfl
  rw [hrefs, hlist, List.count_cons] at hothers
  by_cases hg : g = f
  · subst hg
    simp only [beq_self_eq_true, if_true] at hothers ⊢
    omega
  · simp only [beq_iff_eq, Ne.symm hg, hg, if_false] at hothers ⊢
    omega

variable [DecidableEq W]

lemma Inv.call (h : Inv x) (hpc : x.pc w = .call k) : Inv (x.call w k) := by
  have hl := h.owned.worker w
  have hplace : (x.pc w).place = none := by simp [hpc]
  obtain ⟨f, hf⟩ := Option.ne_none_iff_exists'.1 (hl.called k (by simp [hpc]))
  obtain ⟨o, ho⟩ := h.alive_of_slot hf
  have hparked := h.owned.parked_of_slot hf hplace ho
  have hlast : o.ctx ≠ .last := hl.picked k f o (by simp [hpc]) hf ho
  have hdone : o.state.isDone ≠ true := fun hd => hlast (hparked.last_iff.2 hd)
  have hassert : ¬ (o.state = .running ∨ o.state = .term) := by
    rintro (hr | ht)
    · exact hparked.not_running hr
    · exact hdone (by rw [ht]; rfl)
  have henters : Obj.Enters { o with state := .running } := by
    refine ⟨rfl, ?_⟩
    unfold Obj.Parked at hparked
    split at hparked
    · rename_i hctx
      exact .inl ⟨hctx, hparked.2⟩
    · rename_i hctx
      exact .inr ⟨hctx, hparked.2⟩
    · rename_i hctx
      exact absurd hctx hlast
    · exact hparked.elim
  unfold Pool.call
  rw [hf]
  dsimp only
  rw [ho]
  dsimp only
  rw [if_neg hassert]
  refine h.rewrite ho { o with state := .running } (h.owned.write hf ho (by simp [hpc])
    (p := .swap k f) rfl rfl ?_ h.owned.sound rfl rfl rfl rfl rfl rfl rfl) rfl rfl rfl rfl rfl rfl rfl
    rfl rfl
  exact .inl ⟨rfl, rfl, fun _ _ _ => henters, fun _ _ _ hq => by cases hq⟩

lemma Inv.placed (h : Inv x) (hp : (x.pc w).place = some (k, f)) :
    x.slot (w, k) = some f ∧ Function.update x.current w (some f) = x.current ∧
      x.current w = some f ∧ ∃ o, x.objs f = some o := by
  obtain ⟨hs, hc⟩ := (h.owned.worker w).stacked k f hp
  exact ⟨hs, by rw [← hc, Function.update_eq_self], hc, h.alive_of_slot hs⟩

lemma Inv.enter (h : Inv x) (hpc : x.pc w = .swap k f) : Inv (x.enter w k f) := by
  obtain ⟨hf, hcur, -, o, ho⟩ := h.placed (w := w) (k := k) (f := f) (by simp [hpc])
  obtain ⟨hrun, hent⟩ := (h.owned.worker w).entering k f o hpc ho
  -- the same for both contexts: the thread is then on the stack, at some spot
  have hon : ∀ q, Obj.At { o with ctx := .gone } q →
      Inv ((x.write f { o with ctx := .gone }).goto w (.on k f q)) := by
    intro q hat
    refine h.rewrite ho { o with ctx := .gone } (h.owned.write hf ho (by simp [hpc]) (p := .on k f q)
      rfl rfl ?_ h.owned.sound rfl rfl rfl rfl rfl hcur.symm rfl) rfl rfl rfl rfl rfl rfl rfl rfl rfl
    exact .inl ⟨rfl, rfl, (fun _ _ hq => by cases hq), fun _ _ _ hq => by cases hq; exact hat⟩
  unfold Pool.enter
  rw [ho]
  dsimp only
  obtain ⟨hctx, hmain⟩ | ⟨hctx, hmain⟩ := hent
  · rw [hctx]
    exact hon .entry ⟨rfl, hrun, hmain⟩
  · rw [hctx]
    exact hon .resumed ⟨rfl, hrun, hmain⟩

lemma Inv.owned_on (h : Inv x) {q q' : Spot} (hpc : x.pc w = .on k f q) (hat : o'.At q')
    (hsound : x'.crashed = false) (hnext : x'.next = x.next)
    (hobjs : x'.objs = Function.update x.objs f (some o')) (hslot : x'.slot = x.slot)
    (hqueue : x'.queue = x.queue) (hold : x'.old = x.old) (hcur : x'.current = x.current)
    (hpc' : x'.pc = Function.update x.pc w (.on k f q')) : Owned x' := by
  obtain ⟨hf, hc, -, o, ho⟩ := h.placed (w := w) (k := k) (f := f) (by simp [hpc])
  refine h.owned.write hf ho (by simp [hpc]) (p := .on k f q') rfl rfl ?_ hsound hnext hobjs hslot
    hqueue hold (hcur.trans hc.symm) hpc'
  exact .inl ⟨rfl, rfl, (fun _ _ hq => by cases hq), fun _ _ _ hq => by cases hq; exact hat⟩

lemma Inv.switch (h : Inv x) {q : Spot} (hpc : x.pc w = .on k f q) (ho : x.objs f = some o) (c : Ctx)
    (hparked : Obj.Parked { o with ctx := c }) :
    Inv ({ x.write f { o with ctx := c } with
      current := Function.update x.current w none }.goto w (.back k)) := by
  obtain ⟨hf, -⟩ := h.placed (w := w) (k := k) (f := f) (by simp [hpc])
  exact h.rewrite ho { o with ctx := c } (h.owned.write hf ho (by simp [hpc]) (p := .back k) rfl rfl
    (.inr ⟨rfl, rfl, hparked⟩) h.owned.sound rfl rfl rfl rfl rfl rfl rfl) rfl rfl rfl rfl rfl rfl rfl
    rfl rfl

lemma Inv.acquire_frame (h : Inv x) (ho : x.objs f = some o)
    (howned : Owned (((x.acquire f).write f o').goto w p)) (hframes : o'.frames = o.frames + 1) :
    Inv (((x.acquire f).write f o').goto w p) := by
  refine ⟨howned, h.exact.acquire (f := f) (by simp [Pool.Alive, ho]) (Pool.alive_write ho o') ?_,
    h.total.trans (Pool.live_write ho o').symm⟩
  intro g
  have hwrite := Pool.refs_write ho o' g
  have hrefs : (((x.acquire f).write f o').goto w p).refs g = (x.write f o').refs g := rfl
  rw [hframes] at hwrite
  rw [hrefs]
  split_ifs at hwrite ⊢ <;> omega

lemma Inv.release_frame (h : Inv x) (ho : x.objs f = some o)
    (howned : Owned ((x.write f o').goto w p)) (hframes : o.frames = o'.frames + 1) :
    Inv (((x.write f o').goto w p).release f) := by
  refine Inv.release howned (h.exact.move (Pool.alive_write ho o') fun g => ?_)
    (h.total.trans (Pool.live_write ho o').symm)
  have hwrite := Pool.refs_write ho o' g
  have hrefs : ((x.write f o').goto w p).refs g = (x.write f o').refs g := rfl
  rw [hframes] at hwrite
  rw [hrefs]
  split_ifs at hwrite ⊢ <;> omega

lemma Inv.advance (h : Inv x) {q : Spot} (hpc : x.pc w = .on k f q) (ho : x.objs f = some o)
    (hs : x.advance w k f o q = some x') : Inv x' := by
  obtain ⟨-, -, hcur, -⟩ := h.placed (w := w) (k := k) (f := f) (by simp [hpc])
  have hat := (h.owned.worker w).running k f q o hpc ho
  obtain ⟨hctx, hat⟩ := hat
  cases q with
  | entry =>
    obtain ⟨hrun, hmain, hframe⟩ := hat
    rw [Pool.advance, if_pos hcur] at hs
    cases hs
    refine h.acquire_frame ho (h.owned_on hpc ?_ h.owned.sound rfl rfl rfl rfl rfl rfl rfl) ?_
    · cases hfunc : o.func with
      | true => exact ⟨hctx, hrun, rfl, hframe⟩
      | false => exact ⟨hctx, rfl, rfl, hframe⟩
    · simp [Obj.frames, hmain, hframe]
  | body => cases hs
  | yielding =>
    cases hs
    exact h.switch hpc ho .yielded hat
  | resumed =>
    obtain ⟨hrun, hmain, hframe⟩ := hat
    cases hs
    refine h.release_frame ho (h.owned_on hpc ?_ h.owned.sound rfl rfl rfl rfl rfl rfl rfl) ?_
    · exact ⟨hctx, hrun, hmain, rfl⟩
    · simp [Obj.frames, hmain, hframe]
  | finished =>
    obtain ⟨hdone, hmain, hframe⟩ := hat
    cases hs
    refine h.release_frame ho (h.owned_on hpc ?_ h.owned.sound rfl rfl rfl rfl rfl rfl rfl) ?_
    · exact ⟨hctx, hdone, rfl, hframe⟩
    · simp [Obj.frames, hmain, hframe]
  | leaving =>
    rw [Pool.advance, if_pos hcur] at hs
    cases hs
    exact h.switch hpc ho .last hat

lemma Inv.body (h : Inv x) {c : Choice} (hs : x.body w c = some x') : Inv x' := by
  unfold Pool.body at hs
  split at hs
  · rename_i k f hpc
    obtain ⟨-, -, hcur, o, ho⟩ := h.placed (w := w) (k := k) (f := f) (by simp [hpc])
    obtain ⟨hctx, hrun, hmain, hframe⟩ := (h.owned.worker w).running k f .body o hpc ho
    rw [ho] at hs
    dsimp only at hs
    rw [if_pos hcur] at hs
    cases c with
    | share =>
      cases hs
      exact h.share ho
    | yield ready =>
      cases hs
      refine h.acquire_frame ho (h.owned_on hpc ?_ h.owned.sound rfl rfl rfl rfl rfl rfl rfl) ?_
      · cases ready with
        | true => exact ⟨hctx, .inl rfl, hmain, rfl⟩
        | false => exact ⟨hctx, .inr rfl, hmain, rfl⟩
      · simp [Obj.frames, hmain, hframe]
    | finish ok =>
      cases hs
      refine h.rewrite ho _ (h.owned_on hpc ?_ h.owned.sound rfl rfl rfl rfl rfl rfl rfl) ?_ rfl rfl rfl
        rfl rfl rfl rfl rfl
      · cases ok <;> exact ⟨hctx, rfl, hmain, hframe⟩
      · rfl
  · cases hs

end Stack

/-! ### Every step -/

section Step

variable [Fintype W] {x x' : Pool W} {w : W} {k : Kind} {f j : ℕ} {a : Act W}

lemma Inv.init : Inv ({} : Pool W) where
  owned :=
    { sound := rfl
      fresh := fun _ _ => rfl
      claims := fun f => by simp [Pool.claims, RefCount.refs]
      parked := fun f o ho => by cases ho
      queued := fun f o hq => by simp at hq
      worker := fun w => Local.of_off rfl rfl (fun k f o hk => by cases hk)
        (fun f o _ hs => by cases hs) (fun k hk => by cases hk) (fun hl => by cases hl)
        (fun _ _ => rfl) fun _ => rfl }
  exact :=
    { count_eq := fun f => by simp [Pool.refs, RefCount.refs, Pool.frames]
      alive_iff := fun f => by simp [Pool.refs, RefCount.refs, Pool.frames, Pool.Alive] }
  total := rfl

lemma Inv.alive_of_others (h : Inv x) (hj : x.others[j]? = some f) : ∃ o, x.objs f = some o := by
  have hpos := List.count_pos_iff.2 (List.mem_of_getElem? hj)
  exact Option.isSome_iff_exists.1 ((h.exact.alive_iff f).2 (by unfold Pool.refs; omega))

lemma count_eraseIdx_add {l : List ℕ} (hj : l[j]? = some f) (g : ℕ) :
    (l.eraseIdx j).count g + (if g = f then 1 else 0) = l.count g := by
  obtain ⟨hlt, rfl⟩ := List.getElem?_eq_some_iff.1 hj
  rw [← (List.getElem_cons_eraseIdx_perm hlt).count_eq, List.count_cons]
  by_cases hg : g = l[j]
  · simp [hg]
  · simp [hg, Ne.symm hg]

variable [DecidableEq W]

/-- `func_fiber` is reset after it was scheduled. Somebody may be running the fiber by now. -/
lemma Inv.discard (h : Inv x) (hpc : x.pc w = .discard) (hf : x.old w = some f) :
    Inv (({ x with old := Function.update x.old w none }.goto w .top).release f) := by
  have hl := h.owned.worker w
  have hplace : (x.pc w).place = none := by simp [hpc]
  have hold : ∀ g, RefCount.refs (Function.update x.old w none) g + (if g = f then 1 else 0) =
      RefCount.refs x.old g := by
    intro g
    have hupd := RefCount.refs_update x.old w none g
    rw [hf] at hupd
    simpa [eq_comm] using hupd
  refine Inv.release (h.owned.move w (p := .top) hplace h.owned.sound rfl rfl rfl rfl (fun _ _ _ => rfl)
    (fun w' hw' => Function.update_of_ne hw' _ _) h.owned.claims h.owned.queued fun hp hcur => ?_)
    (h.exact.move (fun _ => Iff.rfl) fun g => ?_) h.total
  · exact Local.of_off (by rw [hp]; rfl) hcur (by simp)
      (fun f o _ => hl.recycled f o (by simp [hpc])) (by simp)
      (fun _ => hl.idle (by simp [hpc])) (by simp) fun _ => Function.update_self ..
  · have hg := hold g
    unfold Pool.refs
    show RefCount.refs x.slot g + RefCount.refs (Function.update x.old w none) g +
      x.queue.count (Task.fiber g) + x.others.count g + x.frames g + _ = _
    omega

lemma Inv.go (h : Inv x) (hs : x.go w = some x') : Inv x' := by
  have hl := h.owned.worker w
  unfold Pool.go at hs
  split at hs
  · rename_i hpc
    cases hs
    have hnull : ∀ k, x.slot (w, k) = none := fun k => hl.null k (by simp [hpc])
    refine h.make (by simp [hpc]) (hnull .idle) fun hcur => Local.of_off (by simp) hcur (by simp) ?_
      (by simp) (by simp) (by simp) fun _ => hl.old (by simp [hpc])
    intro f o _ hslot
    rw [Pool.slot_goto, Pool.slot_put_of_ne (by simp)] at hslot
    exact absurd ((hnull .func).symm.trans hslot) (by simp)
  · rename_i hpc
    cases hs
    refine h.drop (by simp [hpc]) fun hcur => hl.step (p := .select) (by simp [hpc]) (by simp [hpc])
      (by simp [hpc]) Pool.pc_goto rfl hcur rfl (fun k hk => Pool.slot_put_of_ne hk) rfl (by simp)
      (by simp) ?_
    intro k hk
    obtain rfl : k = .task := by simpa using hk
    exact Pool.slot_put none
  · cases hs
    exact h.select ‹_›
  · cases hs
    exact h.dispatch ‹_›
  · cases hs
    exact h.call ‹_›
  · cases hs
    exact h.enter ‹_›
  · rename_i k f p hpc
    obtain ⟨-, -, -, o, ho⟩ := h.placed (w := w) (k := k) (f := f) (by simp [hpc])
    rw [ho] at hs
    exact h.advance hpc ho hs
  · cases hs
    exact h.comeBack ‹_›
  · rename_i hpc
    split at hs
    · cases hs
      exact h.discard hpc ‹_›
    · rename_i hnone
      cases hs
      refine h.goto (by simp [hpc]) fun hcur => ?_
      exact Local.of_off (by simp) hcur (by simp) (fun f o _ => hl.recycled f o (by simp [hpc]))
        (by simp) (fun _ => hl.idle (by simp [hpc])) (by simp) fun _ => hnone
  · rename_i k ks hpc
    cases hs
    refine h.drop (by simp [hpc]) fun hcur => ?_
    have hp : (((x.goto w (.leave ks)).put w k none).pc w) = .leave ks := Pool.pc_goto
    refine Local.of_off (by rw [hp]; rfl) hcur (by simp [hp]) ?_ (by simp [hp]) (by simp [hp])
      (by simp [hp]) fun _ => hl.old (by simp [hpc])
    intro f o _ hslot ho
    by_cases hk : Kind.func = k
    · subst hk
      simp at hslot
    · rw [Pool.slot_put_of_ne hk] at hslot
      exact hl.recycled f o (by simp [hpc]) hslot ho
  · rename_i hpc
    cases hs
    refine h.goto (by simp [hpc]) fun hcur => ?_
    exact Local.of_off (by simp) hcur (by simp) (fun f o _ => hl.recycled f o (by simp [hpc]))
      (by simp) (by simp) (by simp) fun _ => hl.old (by simp [hpc])
  · cases hs

theorem Inv.step (h : Inv x) (hcalm : Calm x a) (hs : x.step a = some x') : Inv x' := by
  unfold Pool.step at hs
  split at hs
  · cases hs
  · cases a with
    | go w => exact h.go hs
    | body w c => exact h.body hs
    | spawn =>
      cases hs
      refine ⟨h.newFiber_owned.mono (fun _ _ ho => ho) h.owned.sound rfl rfl rfl rfl rfl rfl,
        h.exact.create ?_ x.alive_newFiber fun g => ?_, ?_⟩
      · unfold Pool.Alive
        rw [h.owned.fresh x.next le_rfl]
        simp
      · have hothers := x.newFiber.refs_others (x.next :: x.others) g
        rw [h.refs_newFiber, show x.newFiber.others = x.others from rfl, List.count_cons] at hothers
        by_cases hg : g = x.next
        · subst hg
          simp only [beq_self_eq_true, if_true] at hothers ⊢
          omega
        · simp only [beq_iff_eq, Ne.symm hg, hg, if_false] at hothers ⊢
          omega
      · show x.total + 1 = x.newFiber.live
        rw [x.live_newFiber, h.total]
    | submit =>
      cases hs
      have hcount : ∀ g, (x.queue ++ [Task.func]).count (Task.fiber g) = x.queue.count (.fiber g) :=
        fun g => by simp [List.count_append]
      refine ⟨⟨h.owned.sound, h.owned.fresh, fun g => ?_, h.owned.parked, fun f o hq => ?_,
        fun w => (h.owned.worker w).congr rfl rfl rfl (fun _ => rfl) fun _ _ _ _ ho => ho⟩,
        h.exact.move (fun _ => Iff.rfl) fun g => ?_, h.total⟩
      · show _ + (x.queue ++ [Task.func]).count (Task.fiber g) ≤ 1
        rw [hcount]
        exact h.owned.claims g
      · exact h.owned.queued f o (by simpa using hq)
      · show _ + _ + (x.queue ++ [Task.func]).count (Task.fiber g) + _ + _ = _
        rw [hcount]
        rfl
    | copy j =>
      dsimp only at hs
      split at hs
      · rename_i f hj
        cases hs
        obtain ⟨o, ho⟩ := h.alive_of_others hj
        exact h.share ho
      · cases hs
    | forget j =>
      dsimp only at hs
      split at hs
      · rename_i f hj
        cases hs
        refine Inv.release (h.owned.mono (fun _ _ ho => ho) h.owned.sound rfl rfl rfl rfl rfl rfl)
          (h.exact.move (fun _ => Iff.rfl) fun g => ?_) h.total
        have hothers := x.refs_others (x.others.eraseIdx j) g
        have hcount := count_eraseIdx_add hj g
        omega
      · cases hs
    | wake j =>
      dsimp only at hs
      split at hs
      · rename_i f hj
        cases hs
        obtain ⟨hzero, hctx⟩ := hcalm f hj
        have hcount := count_append_fiber x.queue f
        refine ⟨⟨h.owned.sound, h.owned.fresh, fun g => ?_, h.owned.parked,
          h.owned.queued_append hctx,
          fun w => (h.owned.worker w).congr rfl rfl rfl (fun _ => rfl) fun _ _ _ _ ho => ho⟩,
          h.exact.move (fun _ => Iff.rfl) fun g => ?_, h.total⟩
        · have hle := h.owned.claims g
          unfold Pool.claims at hle hzero ⊢
          show _ + (x.queue ++ [Task.fiber f]).count (Task.fiber g) ≤ 1
          rw [hcount]
          by_cases hg : g = f
          · subst hg
            rw [if_pos rfl]
            show RefCount.refs x.slot g + _ ≤ 1
            omega
          · rw [if_neg hg]
            exact hle
        · have heq := count_eraseIdx_add hj g
          unfold Pool.refs
          show RefCount.refs x.slot g + RefCount.refs x.old g +
            (x.queue ++ [Task.fiber f]).count (Task.fiber g) + (x.others.eraseIdx j).count g +
              x.frames g = _
          rw [hcount]
          omega
      · cases hs

end Step

/-! ### Fibers and their pointers -/

/-- A fiber that is suspended has the pointers of both its frames. -/
lemma Inv.keeps_itself [Fintype W] {x : Pool W} {f : ℕ} {o : Obj} (h : Inv x) (ho : x.objs f = some o)
    (hctx : o.ctx = .yielded) : o.frames = 2 := by
  have hframes : o.main = true ∧ o.frame = true := by
    by_cases hoff : ∀ w k, (x.pc w).place ≠ some (k, f)
    · have hparked := h.owned.parked f o ho hoff
      simp only [Obj.Parked, hctx] at hparked
      exact hparked.2
    · push Not at hoff
      obtain ⟨w, k, hp⟩ := hoff
      cases hpc : x.pc w with
      | swap k' f' =>
        rw [hpc] at hp
        cases hp
        obtain ⟨-, ⟨hentry, -⟩ | ⟨-, hmain⟩⟩ := (h.owned.worker w).entering k f o hpc ho
        · rw [hctx] at hentry
          cases hentry
        · exact hmain
      | on k' f' p =>
        rw [hpc] at hp
        cases hp
        have hgone := ((h.owned.worker w).running k f p o hpc ho).1
        rw [hctx] at hgone
        cases hgone
      | _ =>
        rw [hpc] at hp
        cases hp
  simp [Obj.frames, hframes]

theorem Inv.of_reach [DecidableEq W] [Fintype W] {x : Pool W} (hr : Reach Pool.step Calm {} x) : Inv x :=
  hr.inv Inv.init fun _ h hcalm hs => h.step hcalm hs

/-- In every run in which nobody is woken early: no assertion fails, and nothing is used that is gone.
The counts are exact: a fiber exists as long as somebody points to it, and not longer. `GetTotalCount`
says how many there are. A thread in the code of a fiber finds that fiber by `GetThis`, and no other
thread is there. And a fiber that is suspended keeps itself. -/
theorem fibers_safe [DecidableEq W] [Fintype W] {x : Pool W} (hr : Reach Pool.step Calm {} x) :
    x.crashed = false ∧
    (∀ f, x.count f = x.refs f ∧ (x.Alive f ↔ 0 < x.refs f)) ∧
    x.total = x.live ∧
    (∀ w k f p, x.pc w = .on k f p → x.Alive f ∧ x.current w = some f ∧
      ∀ w' k', (x.pc w').place = some (k', f) → w' = w) ∧
    ∀ f o, x.objs f = some o → o.ctx = .yielded → 2 ≤ x.count f := by
  have h := Inv.of_reach hr
  refine ⟨h.owned.sound, fun f => ⟨h.exact.count_eq f, h.exact.alive_iff f⟩, h.total, ?_, ?_⟩
  · intro w k f p hpc
    obtain ⟨hs, -, hcur, o, ho⟩ := h.placed (w := w) (k := k) (f := f) (by simp [hpc])
    refine ⟨by simp [Pool.Alive, ho], hcur, fun w' k' hp' => ?_⟩
    exact (h.owned.unique hs ((h.owned.worker w').stacked k' f hp').1).1
  · intro f o ho hctx
    have hframes := h.keeps_itself ho hctx
    rw [h.exact.count_eq]
    unfold Pool.refs Pool.frames
    rw [ho, Option.map_some, Option.getD_some]
    omega

/-- `Calm`, as a test. -/
def calm [Fintype W] (x : Pool W) : Act W → Bool
  | .wake j =>
      match x.others[j]? with
      | some f => x.claims f == 0 && (x.objs f).all fun o => o.ctx != .last
      | none => true
  | _ => true

lemma calm_of_test [Fintype W] (x : Pool W) (a : Act W) (h : calm x a = true) : Calm x a := by
  cases a with
  | wake j =>
    intro f hj
    simp only [calm, hj, Bool.and_eq_true, beq_iff_eq] at h
    refine ⟨h.1, fun o ho => ?_⟩
    simpa [ho] using h.2
  | _ => trivial

/-- One worker runs a function up to its first `Yield`, which has given away a pointer. -/
def suspends : List (Act Bool) :=
  .submit :: List.replicate 7 (.go false) ++
    [.body false .share, .body false (.yield false), .go false]

/-- The other one takes the fiber and gets on with it. -/
def resumes : List (Act Bool) := .wake 0 :: List.replicate 7 (.go true)

theorem fibers_safe_moved : ∃ x : Pool Bool, Reach Pool.step Calm {} x ∧
    x.pc true = .on .task 1 .body ∧ x.crashed = false ∧ x.current true = some 1 ∧
      x.count 1 = x.refs 1 := by
  have hrun : (run Pool.step calm ({} : Pool Bool) (suspends ++ .go false :: resumes)).any
      (fun x => decide (x.pc true = .on .task 1 .body)) = true := by
    decide +kernel
  obtain ⟨x, hr, hp⟩ := exists_reach_of_run calm_of_test hrun
  have hpc : x.pc true = .on .task 1 .body := of_decide_eq_true hp
  obtain ⟨hsound, hcount, -, hon, -⟩ := fibers_safe hr
  exact ⟨x, hr, hpc, hsound, (hon true _ _ _ hpc).2.1, (hcount 1).1⟩

/-- If the other worker gets the fiber before the first one has looked at its state, and the fiber
calls `YieldReady` there, both workers put it into the queue. The next two who take it find it
running. -/
theorem woken_early : ∃ x : Pool Bool, Reach Pool.step Free {} x ∧ x.crashed = true := by
  have hrun : (run Pool.step (fun _ _ => true) ({} : Pool Bool)
      (suspends ++ resumes ++ [.body true (.yield true), .go true, .go true, .go false] ++
        List.replicate 4 (.go true) ++ List.replicate 3 (.go false))).any Pool.crashed = true := by
    decide +kernel
  exact exists_reach_of_run (G := Free) (fun _ _ _ => trivial) hrun

end Eva01.Fibers.Lifetime

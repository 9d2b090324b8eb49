import Lifecycle.Proofs.Kernel.Sane

/-! How lists of children change. What a table does with references, pids and waits can only
take members out of them; a fork that links its child puts it at the end of one, and an exit
puts the children it hands on at the end of the kernel's. Lists are compared as lists of
blocks, so that no process is taken for a later one with its pid. -/

namespace Lifecycle

namespace Family

theorem sublist_forget (f : Family) (pid p : Pid) :
    ((f.forget pid).childrenOf p).Sublist (f.childrenOf p) := by
  rw [forget, childrenOf_dropList, childrenOf_unlink]
  split
  · exact List.nil_sublist _
  · split
    · exact List.filter_sublist
    · exact .refl _

theorem Coherent.ne_of_mem_forget {f : Family} (h : f.Coherent) {pid p c : Pid}
    (hc : c ∈ (f.forget pid).childrenOf p) : c ≠ pid :=
  ((h.parentLink?_forget pid c p).1 (((h.forget pid).mirror c p).2 hc)).1

end Family

/-- Whom a stopped fork may link under a process when it goes on. -/
def Pending.bears (k : Kernel) (p : Pid) : Pending → List BlockId
  | .forkFiles parent child => if p = (k.block parent).pid then [child] else []
  | _ => []

namespace Kernel

variable {k k₁ k' : Kernel} {r : List Pid}

/-- Lists of children may lose members, and those that stay are found as before. -/
structure Thins (k k' : Kernel) : Prop where
  lists : ∀ p, (k'.family.childrenOf p).Sublist (k.family.childrenOf p)
  kept : ∀ p, ∀ c ∈ k'.family.childrenOf p, k'.pids.lookup c = k.pids.lookup c

namespace Thins

theorem of_lookup (hf : k'.family = k.family) (hl : k'.pids.lookup = k.pids.lookup) :
    k.Thins k' :=
  ⟨fun _ => by rw [hf], fun _ _ _ => by rw [hl]⟩

theorem refl (k : Kernel) : k.Thins k := .of_lookup rfl rfl

theorem of_alike (h : k.Alike k') : k.Thins k' := .of_lookup h.family (by rw [h.pids])

theorem trans (h : k.Thins k₁) (h' : k₁.Thins k') : k.Thins k' where
  lists p := (h'.lists p).trans (h.lists p)
  kept p c hc := (h'.kept p c hc).trans (h.kept p c ((h'.lists p).subset hc))

theorem childBlocks (h : k.Thins k') (p : Pid) :
    (k'.childBlocks p).Sublist (k.childBlocks p) := by
  have hsame : k'.childBlocks p = (k'.family.childrenOf p).filterMap k.pids.lookup :=
    List.filterMap_congr (h.kept p)
  rw [hsame]
  exact (h.lists p).filterMap _

end Thins

/-! ### References -/

theorem Intact.thins_release (h : k.Intact r) (b : BlockId) : k.Thins (k.release b).2 := by
  rw [release_eq]
  split
  · next hn =>
    have hb := h.installed b (by omega)
    have hpid : ((k.update b .released).block b).pid = (k.block b).pid :=
      view_update Block.pid rfl b
    obtain ⟨-, -, -, -, hlook, hfam, -⟩ :=
      destroy_spec (k := k.update b .released) (b := b) h.valid (by rw [hpid]; exact hb)
    rw [hpid] at hlook hfam
    refine ⟨fun p => ?_, fun p c hc => ?_⟩
    · rw [hfam]
      exact k.family.sublist_forget _ p
    · rw [hfam] at hc
      rw [hlook, if_neg (h.family.ne_of_mem_forget hc)]
      rfl
  · exact .of_lookup rfl rfl

theorem Intact.thins_collect (h : k.Intact r) (b : BlockId) : k.Thins (k.collect b).2 := by
  have ha : k.Alike (k.update b Block.collected) :=
    .of_update b _ fun _ => ⟨rfl, rfl, rfl, rfl⟩
  have hi := h.alike ha
  have hfirst := hi.thins_release b
  have hsecond := (hi.release b).thins_release b
  rw [collect_eq]
  dsimp only
  exact ((Thins.of_alike ha).trans hfirst).trans hsecond

theorem Intact.thins_wake (h : k.Intact r) (b : BlockId) : k.Thins (k.wake b).2 := by
  unfold Kernel.wake
  split
  · exact h.thins_release b
  · exact h.thins_collect b

theorem Intact.thins_wait (h : k.Intact r) (caller : Pid) (target : Int64) (options : Int32) :
    k.Thins (k.wait caller target options).2 := by
  have hw := k.asks caller target options
  generalize k.wait caller target options = out at hw ⊢
  cases hw with
  | refused => exact .refl k
  | @collected _ b named found =>
    have hcollect := (h.alike found.alike).thins_collect b
    generalize ((k.update b .retained).update b .committed).collect b = out at *
    exact (Thins.of_alike found.alike).trans hcollect
  | asleep named found => exact .of_alike found.alike

theorem thins_retain (k : Kernel) (b : BlockId) : k.Thins (k.retain b) := by
  rw [retain_eq]
  split <;> exact .of_lookup rfl rfl

/-! ### Forks under way -/

theorem Intact.thins_reserve (h : k.Intact r) : k.Thins k.reserve.2 := by
  rcases reserve_spec h.live h.valid with ⟨-, he⟩ | ⟨-, p, m, he, -, -, -, -, -, hl, -⟩
  · rw [he]
    exact .refl k
  · rw [he]
    exact .of_lookup rfl hl

theorem Intact.thins_unreserve {p : Pid} (h : k.Intact (p :: r)) : k.Thins (k.unreserve p) := by
  have hmem : p ∈ p :: r := List.mem_cons_self
  obtain ⟨m, hm, -, -, -, hl, -⟩ :=
    unreserve_spec h.valid ((h.taken p).2 (Or.inr hmem)) (h.empty hmem)
  rw [hm]
  exact .of_lookup rfl hl

/-- A new block comes in at a pid that is in no list. -/
theorem Intact.thins_make {p : Pid} (h : k.Intact (p :: r)) {name : String}
    {refusal : Option Errno} {result : Except ProcessError BlockId}
    (made : k.make p name refusal = (result, k')) : k.Thins k' := by
  have hmem : p ∈ p :: r := List.mem_cons_self
  cases refusal with
  | some errno =>
    have ha : k.Alike (k.log (.refuseTask name errno)) := .of_host rfl rfl fun _ => rfl
    have hthins := (Thins.of_alike ha).trans (h.alike ha).thins_unreserve
    cases made
    exact hthins
  | none =>
    obtain ⟨k₁, hk, -, -, hf, -, -, -, -, -, -, hl⟩ :=
      make_spec h.valid ((h.taken p).2 (Or.inr hmem)) (h.empty hmem) name
    cases hk.symm.trans made
    refine ⟨fun q => by rw [hf], fun q c hc => ?_⟩
    rw [hf] at hc
    obtain ⟨b, hb⟩ := h.child ((h.family.mirror c q).2 hc)
    rw [hl, if_neg]
    rintro rfl
    rw [h.empty hmem] at hb
    cases hb

theorem Intact.thins_abandon (h : k.Intact r) (child : BlockId) : k.Thins (k.abandon child) := by
  have ha : k.Alike (k.update child Block.unwound) :=
    .of_update child _ fun _ => ⟨rfl, rfl, rfl, rfl⟩
  have hrelease := (h.alike ha).thins_release child
  unfold Kernel.abandon
  exact (Thins.of_alike ha).trans hrelease

/-- A fork that is given up. -/
theorem Intact.thins_unwind (h : k.Intact r) (child parent : BlockId) (progress : Progress) :
    k.Thins ((k.abandon child).endFork parent progress).2 := by
  have hrelease := (h.abandon child).thins_release parent
  unfold Kernel.endFork
  dsimp only
  exact (h.thins_abandon child).trans hrelease

theorem Intact.thins_beginCreate (h : k.Intact r) (name : String) :
    k.Thins (k.beginCreate name).2 := by
  have hb := k.beginsCreate name
  have hreserve := h.thins_reserve
  generalize k.beginCreate name = out at hb ⊢
  cases hb with
  | refused reserve =>
    rw [reserve] at hreserve
    exact hreserve
  | begun reserve =>
    rw [reserve] at hreserve
    exact hreserve

theorem Intact.thins_beginFork (h : k.Intact r) (pid : Pid) : k.Thins (k.beginFork pid).2 := by
  have hb := k.beginsFork pid
  generalize k.beginFork pid = out at hb ⊢
  cases hb with
  | refused => exact .refl k
  | @full parent _ _ found reserve =>
    have hretained := Alike.retained found.counted
    have hi := h.alike hretained
    rcases hi.reserve with ⟨-, he⟩ | ⟨-, p, m, he, -⟩
    · cases he.symm.trans reserve
      exact (Thins.of_alike hretained).trans (hi.thins_release parent)
    · cases he.symm.trans reserve
  | begun found reserve =>
    have hretained := Alike.retained found.counted
    have hreserve := (h.alike hretained).thins_reserve
    rw [reserve] at hreserve
    exact (Thins.of_alike hretained).trans hreserve

/-! ### Linking -/

/-- Lists of children may lose members, and then these may come to their ends. -/
def Appends (k : Kernel) (extra : Pid → List BlockId) (k' : Kernel) : Prop :=
  ∀ p, (k'.childBlocks p).Sublist (k.childBlocks p ++ extra p)

variable {extra : Pid → List BlockId}

theorem Thins.appends (h : k.Thins k') (extra : Pid → List BlockId) : k.Appends extra k' :=
  fun p => (h.childBlocks p).trans (List.sublist_append_left _ _)

theorem Appends.thins (h : k.Appends extra k₁) (h' : k₁.Thins k') : k.Appends extra k' :=
  fun p => (h'.childBlocks p).trans (h p)

theorem Thins.then_appends (h : k.Thins k₁) (h' : k₁.Appends extra k') : k.Appends extra k' :=
  fun p => (h' p).trans ((h.childBlocks p).append_right _)

/-- A process that is installed comes to the end of its parent's list. -/
theorem appends_attach {c q : BlockId} (hc : k.pids.lookup (k.block c).pid = some c) :
    k.Appends (fun p => if p = (k.block q).pid then [c] else []) (k.attach c q) := by
  intro p
  unfold attach
  split
  · next family hf =>
    have hlist : ({ k with family := family }.update c (·.adopt (k.block q).pid)).childBlocks p =
        (family.childrenOf p).filterMap k.pids.lookup := rfl
    dsimp only
    rw [hlist, Family.childrenOf_attach hf]
    by_cases hp : p = (k.block q).pid
    · rw [if_pos hp, if_pos hp, List.filterMap_append, List.filterMap_cons_some hc]
      exact .refl _
    · rw [if_neg hp]
      exact List.sublist_append_left _ _
  · exact List.sublist_append_left _ _

theorem Intact.appends_linkChild (h : k.Intact r) {parent child : BlockId}
    (hc : k.pids.lookup (k.block child).pid = some child) :
    k.Appends (fun p => if p = (k.block parent).pid then [child] else [])
      (k.linkChild parent child).2 := by
  have hl := k.links parent child
  generalize k.linkChild parent child = out at hl ⊢
  cases hl with
  | unwound => exact (h.thins_unwind child parent _).appends _
  | attached => exact (appends_attach hc).thins (.of_lookup rfl rfl)

theorem Intact.appends_resume {pending : Pending} (h : k.Intact (pending.reserved?.toList ++ r))
    (hb : pending.Below k.blocks.size) (refusal : Option Errno) :
    k.Appends (pending.bears k) (k.resume pending refusal).2 := by
  have hr := k.resumes pending refusal
  generalize k.resume pending refusal = out at hr ⊢
  cases hr with
  | uncreated made => exact (Intact.thins_make (r := r) h made).appends _
  | created made => exact (Intact.thins_make (r := r) h made).appends _
  | @unborn parent _ _ _ made =>
    have hi := Intact.make (r := r) h made
    exact ((Intact.thins_make (r := r) h made).trans (hi.thins_release parent)).appends _
  | born made => exact (Intact.thins_make (r := r) h made).appends _
  | unwound held flight refused =>
    exact ((Thins.of_alike refused.called.alike).trans
      (((h.of_child flight).alike refused.called.alike).thins_unwind ..)).appends _
  | copied space => exact (Thins.of_alike (Called.space space).alike).appends _
  | @linked parent child k' files =>
    have ha := (Called.files files).alike
    obtain ⟨-, -, ⟨_, target⟩⟩ := tasks_of_cloneFdTable files
    have hchild := h.lookup_of_task (hb.2 child rfl) target
    have hlink : k'.Appends (fun p => if p = (k'.block parent).pid then [child] else [])
        (k'.linkChild parent child).2 :=
      (h.alike ha).appends_linkChild (by rw [ha.pids, ha.pid]; exact hchild)
    rw [ha.pid] at hlink
    exact (Thins.of_alike ha).then_appends hlink
  | @complete parent _ _ _ spawned =>
    have ha := (Called.spawn spawned).alike
    exact ((Thins.of_alike ha).trans ((h.alike ha).thins_release parent)).appends _

/-! ### Exiting -/

theorem Intact.appends_rehome (h : k.Intact r) {c : BlockId} (hz : (k.block c).refCount ≠ 0) :
    k.Appends (fun p => if p = kernelPid then [c] else []) (k.rehome c) := by
  unfold Kernel.rehome
  split
  · have hattach := appends_attach (q := root) (h.installed c hz)
    rw [h.root_pid] at hattach
    exact hattach
  · split
    · have ha : k.Alike (k.update c Block.collected) :=
        .of_update c _ fun _ => ⟨rfl, rfl, rfl, rfl⟩
      exact ((Thins.of_alike ha).trans ((h.alike ha).thins_release c)).appends _
    · exact (Thins.refl k).appends _

/-- The children handed on come to the end of the kernel's list in their order. -/
theorem Intact.appends_rehome_foldl (cs : List BlockId) {k : Kernel} (h : k.Intact r)
    (hn : cs.Nodup) (hz : ∀ c ∈ cs, (k.block c).refCount ≠ 0) :
    k.Appends (fun p => if p = kernelPid then cs else []) (cs.foldl Kernel.rehome k) := by
  induction cs generalizing k with
  | nil => exact (Thins.refl k).appends _
  | cons c cs ih =>
    obtain ⟨hc, hn⟩ := List.nodup_cons.1 hn
    have hzc := hz c List.mem_cons_self
    obtain ⟨hi, hothers⟩ := h.rehome hzc
    have hrest := ih hi hn fun d hd => by
      rw [hothers d fun hdc => hc (hdc ▸ hd)]
      exact hz d (List.mem_cons_of_mem _ hd)
    intro p
    refine (hrest p).trans (((h.appends_rehome hzc p).append_right _).trans ?_)
    dsimp only
    split <;> simp

theorem Intact.thins_release_foldl (cs : List BlockId) {k : Kernel} (h : k.Intact r) :
    k.Thins (cs.foldl (fun k b => (k.release b).2) k) := by
  induction cs generalizing k with
  | nil => exact .refl k
  | cons c cs ih => exact (h.thins_release c).trans (ih (h.release c))

/-- The children held are those that the list names, in its order. -/
theorem Intact.held_foldl (parent : Pid) (pids : List Pid) {k : Kernel} (h : k.Intact r)
    (held : List BlockId) :
    (pids.foldl (Kernel.holdChild parent) (held, k)).1 =
        (pids.filterMap k.pids.lookup).reverse ++ held ∧
      k.Alike (pids.foldl (Kernel.holdChild parent) (held, k)).2 := by
  induction pids generalizing k held with
  | nil => exact ⟨rfl, .refl k⟩
  | cons pid pids ih =>
    rw [List.foldl_cons]
    rcases h.holdChild parent pid held with ⟨hl, he⟩ | ⟨b, k', hl, he, hk⟩
    · rw [he, List.filterMap_cons_none hl]
      exact ih h held
    · have ha : k.Alike k' := by
        have hretained := Alike.retained (h.counted hl)
        rcases hk with rfl | ⟨fault, rfl⟩
        · exact hretained
        · exact hretained.trans (.halt ..)
      obtain ⟨hheld, halike⟩ := ih (h.alike ha) (b :: held)
      rw [he, List.filterMap_cons_some hl]
      refine ⟨?_, ha.trans halike⟩
      rw [hheld, ha.pids]
      simp

theorem Intact.appends_rearrangeChildren (h : k.Intact r) (parent : Pid) :
    k.Appends (fun p => if p = kernelPid then k.childBlocks parent else [])
      (k.rearrangeChildren parent) := by
  obtain ⟨hi, hn, hz⟩ := h.holdChildren parent
  have hdetached : k.Thins { k with family := k.family.detachAll parent } := by
    refine ⟨fun p => ?_, fun _ _ _ => rfl⟩
    change ((k.family.detachAll parent).childrenOf p).Sublist _
    rw [Family.childrenOf_detachAll]
    split
    · exact List.nil_sublist _
    · exact .refl _
  obtain ⟨hheld, halike⟩ := (h.detach parent).held_foldl parent (k.family.childrenOf parent) []
  have hthins : k.Thins (k.holdChildren parent).2 := hdetached.trans (.of_alike halike)
  have hnames : (k.holdChildren parent).1 = k.childBlocks parent := by
    unfold Kernel.holdChildren
    dsimp only
    rw [hheld]
    simp [Kernel.childBlocks]
  unfold Kernel.rearrangeChildren
  generalize k.holdChildren parent = out at *
  obtain ⟨held, k₁⟩ := out
  subst hnames
  have hpositive : ∀ c ∈ k.childBlocks parent, (k₁.block c).refCount ≠ 0 := by
    intro c hc
    have htwo : 2 ≤ (k₁.block c).refCount := hz c hc
    omega
  have hmoved := hi.appends_rehome_foldl (k.childBlocks parent) hn hpositive
  exact (hthins.then_appends hmoved).thins ((hi.rehome_foldl _ hn hpositive).thins_release_foldl _)

theorem Intact.thins_publishExit (h : k.Intact r) (b : BlockId) (status : RawStatus) :
    k.Thins (k.publishExit b status).2 := by
  have hfold : (fun x : Block => { x with exited := true, code := status }) =
      (Block.published · status) := rfl
  have hfold' : (fun x : Block => { x with reaped := true }) = Block.collected := rfl
  have ha : k.Alike (k.update b (Block.published · status)) :=
    .of_update b _ fun _ => ⟨rfl, rfl, rfl, rfl⟩
  unfold Kernel.publishExit
  rw [hfold, hfold']
  dsimp only
  split
  · have ha' := (ha.trans (.of_update b Block.collected fun _ => ⟨rfl, rfl, rfl, rfl⟩)).trans
      (.detachThread _ (((k.update b (Block.published · status)).update b
        Block.collected).block b).task)
    exact (Thins.of_alike ha').trans ((h.alike ha').thins_release b)
  · exact .of_alike (ha.trans (.detachThread ..))

theorem alike_beginExit (k : Kernel) (b : BlockId) : k.Alike (k.beginExit b) := by
  unfold beginExit
  dsimp only
  refine Alike.trans ?_ (.of_update b Block.leaving fun _ => ⟨rfl, rfl, rfl, rfl⟩)
  split
  · split
    · exact (Alike.halt ..).trans (.halt ..)
    · exact .halt ..
  · split
    · exact .halt ..
    · exact .refl k

theorem childBlocks_alike (h : k.Alike k') (p : Pid) : k'.childBlocks p = k.childBlocks p := by
  rw [childBlocks, h.family, h.pids]
  rfl

theorem Intact.appends_exit (h : k.Intact r) (pid : Pid) (status : RawStatus) :
    k.Appends (fun p => if p = kernelPid then k.childBlocks pid else []) (k.exit pid status).2 := by
  have hl := k.leaves pid status
  generalize k.exit pid status = out at hl ⊢
  cases hl with
  | missed => exact (Thins.refl k).appends _
  | @left b _ k' found published =>
    have ha := (Alike.retained found.counted).trans (alike_beginExit (k.update b .retained) b)
    have hi := h.alike ha
    have hrearranged := hi.appends_rearrangeChildren pid
    have hthins := (hi.rearrangeChildren pid).thins_publishExit b status
    have hir := (hi.rearrangeChildren pid).publishExit b status
    rw [childBlocks_alike ha] at hrearranged
    rw [(h.own found.installed).2] at published
    rw [published] at hthins hir
    exact (((Thins.of_alike ha).then_appends hrearranged).thins hthins).thins (hir.thins_release b)

/-- An exit puts the children that are left to the process at the end of the kernel's list. -/
theorem Intact.appends_exitThread (h : k.Intact r) (pid : Pid) (status : ExitStatus) :
    k.Appends (fun p => if p = kernelPid then k.childBlocks pid else [])
      (k.exitThread pid status).2 := by
  have hl := k.leavesThread pid status
  generalize k.exitThread pid status = out at hl ⊢
  cases hl with
  | missed => exact (Thins.refl k).appends _
  | left => exact (h.appends_exit pid status.encode).thins (.of_alike (.terminateThread ..))

/-! ### A table without links -/

theorem childBlocks_of_family (hf : k.family = {}) (p : Pid) : k.childBlocks p = [] := by
  rw [childBlocks, hf]
  rfl

theorem family_release (hf : k.family = {}) (b : BlockId) : (k.release b).2.family = {} := by
  rw [release_eq]
  split
  · rw [family_destroy]
    change k.family.forget _ = {}
    rw [hf]
    rfl
  · exact hf

theorem family_abandon (hf : k.family = {}) (child : BlockId) : (k.abandon child).family = {} := by
  have hupdate : (k.update child Block.unwound).family = {} := hf
  have hrelease := family_release hupdate child
  unfold abandon
  exact hrelease

theorem family_unwind (hf : k.family = {}) (child parent : BlockId) (progress : Progress) :
    ((k.abandon child).endFork parent progress).2.family = {} := by
  have hrelease := family_release (family_abandon hf child) parent
  unfold endFork
  dsimp only
  exact hrelease

theorem family_wake (hf : k.family = {}) (b : BlockId) : (k.wake b).2.family = {} := by
  unfold wake
  split
  · exact family_release hf b
  · have hupdate : (k.update b Block.collected).family = {} := hf
    have hrelease := family_release (family_release hupdate b) b
    rw [collect_eq]
    dsimp only
    exact hrelease

/-- Making a block links nobody. -/
theorem family_of_make {p : Pid} {name : String} {refusal : Option Errno}
    {result : Except ProcessError BlockId} (made : k.make p name refusal = (result, k')) :
    k'.family = k.family := by
  have hmake : (k.make p name refusal).2.family = k.family := by
    cases refusal with
    | some errno =>
      simp only [make, createTask]
      unfold unreserve
      split <;> rfl
    | none =>
      simp only [make, createTask]
      unfold install
      dsimp only
      split <;> rfl
  rwa [made] at hmake

/-- In a table that is shut down a fork that goes on links nobody, whether or not a check fails. -/
theorem Spent.family_resume (h : k.Spent) (pending : Pending) (refusal : Option Errno) :
    (k.resume pending refusal).2.family = {} := by
  have hr := k.resumes pending refusal
  generalize k.resume pending refusal = out at hr ⊢
  cases hr with
  | uncreated made => exact (family_of_make made).trans h.family
  | created made => exact (family_of_make made).trans h.family
  | unborn made => exact family_release ((family_of_make made).trans h.family) _
  | born made => exact (family_of_make made).trans h.family
  | unwound held flight refused =>
    exact family_unwind (refused.called.alike.family.trans h.family) ..
  | copied space => exact (Called.space space).alike.family.trans h.family
  | linked files =>
    -- there is no task left whose files could be cloned
    obtain ⟨-, ⟨_, source⟩, -⟩ := tasks_of_cloneFdTable files
    cases (h.task?_eq_none _).symm.trans source
  | complete spawned => exact family_release ((Called.spawn spawned).alike.family.trans h.family) _

end Kernel

end Lifecycle

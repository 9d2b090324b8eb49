import Lifecycle.Proofs.Kernel.Perishing
import Lifecycle.Proofs.Session.Firm

/-! Programs that use a session in any way: they make any moves, and take or give back
references on the blocks in their slots as they like. A block is torn down once all the same,
with its last reference, and for itself alone. -/

namespace Lifecycle

/-- What a program may do next: make a move, or use the block in a slot directly, which takes
or gives back a reference past the table. -/
inductive Use
  | move (move : Move)
  | retain (slot : Nat)
  | release (slot : Nat)

/-- Whether a move may call the host about tasks that are there. -/
def Move.busy : Move → Prop
  | .resume _ => True
  | .exit _ _ => True
  | .shutdown => True
  | _ => False

namespace Session

def use (s : Session) : Use → Reply × Session
  | .move move => ((s.step move).1, (s.step move).2.2)
  | .retain slot => s.withSlot slot fun content =>
      (.idle, { s with kernel := s.kernel.retain content.block })
  | .release slot => s.withSlot slot fun content =>
      let (last, blocks) := s.kernel.blocks.release content.block
      (.released last, { s with kernel := { s.kernel with blocks := blocks } })

/-- The state after a program; nothing is done after a fault. -/
def uses (s : Session) (us : List Use) : Session :=
  us.foldl (fun s u => if s.kernel.fault.isSome then s else (s.use u).2) s

/-- What a program is told of a reference that it gives back. -/
def report? (s : Session) (u : Use) : Option Release :=
  match u with
  | .move (.release slot) | .move (.overRelease slot) | .release slot =>
    match s.slots.get? slot, (s.use u).1 with
    | some content, .released last => some ⟨content.block, last⟩
    | _, _ => none
  | _ => none

/-- All that a program is told of references that it gives back. -/
def reports (s : Session) : List Use → List Release
  | [] => []
  | u :: us => if s.kernel.fault.isSome then []
    else (s.report? u).toList ++ (s.use u).2.reports us

/-- One session comes of another by elementary changes of the table. -/
def Comes (busy : Prop) (s : Session) (ds : List Release) (s' : Session) : Prop :=
  s.kernel.Does busy s.taken ds s'.kernel s'.taken

variable {s s' : Session} {busy : Prop} {ds : List Release}

theorem uses_cons (s : Session) (u : Use) (us : List Use) : s.uses (u :: us) =
    (if s.kernel.fault.isSome then s else (s.use u).2).uses us :=
  rfl

/-! ### Moves -/

theorem Comes.trans {s₁ : Session} {ds' : List Release} (h : s.Comes busy ds s₁)
    (h' : s₁.Comes busy ds' s') : s.Comes busy (ds ++ ds') s' :=
  Kernel.Does.trans h h'

/-- The table may change, and nobody stops. -/
theorem comes_of_evolves (h : s.kernel.Evolves busy s'.kernel)
    (hf : s'.frames = s.frames) : ∃ ds, s.Comes busy ds s' := by
  have ht : s'.taken = s.taken := by
    unfold taken
    rw [hf]
  obtain ⟨ds, hd⟩ := h s.taken
  refine ⟨ds, ?_⟩
  rw [Comes, ht]
  exact hd

theorem taken_proceed (s : Session) (purpose : Purpose) (progress : Progress) :
    (s.proceed purpose progress).2.taken = progress.reserved ++ s.taken := by
  cases progress with
  | stopped next =>
    have hframes : (s.proceed purpose (.stopped next)).2.frames = ⟨next, purpose⟩ :: s.frames := rfl
    exact taken_of_cons hframes
  | created b =>
    cases purpose with
    | fork via context => rfl
    | create slot =>
      change ((s.store slot _).frames).filterMap _ = _
      rw [frames_store]
      rfl
  | forked child thread => cases purpose <;> rfl
  | failed error => cases purpose <;> rfl

/-- A fork or creation that has been begun or resumed fills at most a slot then. -/
theorem does_proceed {k : Kernel} {r : List Pid} (purpose : Purpose) (progress : Progress)
    (h : k.Does busy r ds s.kernel (progress.reserved ++ s.taken)) : ∃ ds',
      k.Does busy r ds' (s.proceed purpose progress).2.kernel (s.proceed purpose progress).2.taken := by
  have hk := proceed_of (P := (s.kernel.Evolves False ·)) (.refl _)
    (fun b => Kernel.evolves_release _ b) purpose progress
  obtain ⟨ds', hd⟩ := hk (progress.reserved ++ s.taken)
  rw [taken_proceed]
  exact ⟨_, h.trans hd.loosen⟩

theorem comes_act (s : Session) (move : Move) : ∃ ds, s.Comes move.busy ds (s.act move).2 := by
  have hp := s.performs move
  generalize s.act move = out at hp ⊢
  cases hp with
  | declined => exact ⟨[], .done⟩
  | @fork pid =>
    obtain ⟨ds, hd⟩ := Kernel.does_beginFork s.kernel pid s.taken
    exact does_proceed (s := { s with kernel := _ }) _ _ hd
  | @create name =>
    obtain ⟨ds, hd⟩ := Kernel.does_beginCreate s.kernel name s.taken
    exact does_proceed (s := { s with kernel := _ }) _ _ hd
  | @resume f fs refusal stopped =>
    obtain ⟨ds, hd⟩ := Kernel.does_resume s.kernel f.pending refusal
      (fs.filterMap (·.pending.reserved?))
    rw [← taken_of_cons stopped] at hd
    exact does_proceed (s := { s with kernel := _, frames := fs }) _ _ hd
  | exit => exact comes_of_evolves (Kernel.evolves_exitThread s.kernel _ _) rfl
  | @waited caller target options _ _ _ _ _ wait =>
    have hwait := Kernel.evolves_wait s.kernel caller target options
    rw [wait] at hwait
    exact comes_of_evolves hwait rfl
  | @slept caller target options _ _ _ _ _ wait =>
    have hwait := Kernel.evolves_wait s.kernel caller target options
    rw [wait] at hwait
    exact comes_of_evolves hwait rfl
  | missed => exact ⟨[], .done⟩
  | @got pid slot b found =>
    have hretained := (Kernel.Tame.retained found.counted).evolves
    have hstored := store_of (s := { s with kernel := s.kernel.update b .retained })
      (P := (s.kernel.Evolves False ·)) hretained
      fun c => hretained.trans (Kernel.evolves_release _ c)
    exact comes_of_evolves (hstored slot (.ref b)) (frames_store ..)
  | slot handles =>
    have hkept := handles.kernel_of (P := (s.kernel.Evolves False ·)) (.refl _)
      (fun k b hk => hk.trans (Kernel.evolves_release k b))
      fun b => (Kernel.tame_retain s.kernel b).evolves
    exact comes_of_evolves hkept.loosen handles.frames
  | shutdown => exact comes_of_evolves (Kernel.evolves_shutdown s.kernel) rfl

theorem comes_settle (s : Session) : ∃ ds, s.Comes False ds s.settle.2 :=
  comes_of_evolves
    (settle_of (P := (s.kernel.Evolves False ·)) (fun b hk => hk.trans (Kernel.evolves_wake _ b))
      (.refl _))
    (frames_settle s)

/-! ### Programs -/

/-- The uses that are told of a reference: those that give back one on the block in a slot, to the
table or past it. -/
inductive GivesBack (s : Session) : Use → Release → Prop
  | move {move : Move} {b : BlockId} (kernel : (s.act move).2.kernel = (s.kernel.release b).2)
      (frames : (s.act move).2.frames = s.frames) :
      GivesBack s (.move move) ⟨b, (s.kernel.release b).1⟩
  | past {slot : Nat} {b : BlockId}
      (used : (s.use (.release slot)).2 = { s with kernel := s.kernel.update b .released }) :
      GivesBack s (.release slot) ⟨b, (s.kernel.blocks.release b).1⟩

theorem report?_of_slot {slot : Nat} {content : Slot} (hslot : s.slots.get? slot = some content) :
    s.report? (.move (.release slot)) =
        some ⟨content.block, (s.kernel.release content.block).1⟩ ∧
      s.report? (.move (.overRelease slot)) =
        some ⟨content.block, (s.kernel.release content.block).1⟩ ∧
      s.report? (.release slot) =
        some ⟨content.block, (s.kernel.blocks.release content.block).1⟩ := by
  simp [report?, use, step, act, withSlot, hslot]

theorem slot_of_report? {slot : Nat} {d : Release}
    (hr : s.report? (.move (.release slot)) = some d ∨
      s.report? (.move (.overRelease slot)) = some d ∨ s.report? (.release slot) = some d) :
    ∃ content, s.slots.get? slot = some content := by
  cases hslot : s.slots.get? slot with
  | none => simp [report?, hslot] at hr
  | some content => exact ⟨content, rfl⟩

theorem givesBack_of_report? {u : Use} {d : Release} (hr : s.report? u = some d) :
    s.GivesBack u d := by
  cases u with
  | move move =>
    cases move with
    | release slot =>
      obtain ⟨content, hslot⟩ := slot_of_report? (Or.inl hr)
      obtain rfl := Option.some.inj ((report?_of_slot hslot).1.symm.trans hr)
      refine .move ?_ ?_ <;> simp only [act, withSlot, hslot] <;> rfl
    | overRelease slot =>
      obtain ⟨content, hslot⟩ := slot_of_report? (Or.inr (Or.inl hr))
      obtain rfl := Option.some.inj ((report?_of_slot hslot).2.1.symm.trans hr)
      refine .move ?_ ?_ <;> simp only [act, withSlot, hslot]
    | _ => cases hr
  | retain slot => cases hr
  | release slot =>
    obtain ⟨content, hslot⟩ := slot_of_report? (Or.inr (Or.inr hr))
    obtain rfl := Option.some.inj ((report?_of_slot hslot).2.2.symm.trans hr)
    refine .past ?_
    simp only [use, withSlot, hslot]
    rfl

/-- What is told of a reference that is given back is whether the count was one. -/
theorem report_last {u : Use} {b : BlockId} {last : Bool} (hr : s.report? u = some ⟨b, last⟩) :
    last = decide ((s.kernel.block b).refCount = 1) := by
  cases givesBack_of_report? hr with
  | move => exact Kernel.release_last ..
  | past => exact Kernel.forgo_last ..

/-- After the act of a move come the waits that it wakes. -/
theorem comes_move {move : Move} (hd : s.Comes True ds (s.act move).2) :
    ∃ ds', s.Comes True (ds ++ ds') (s.use (.move move)).2 := by
  obtain ⟨ds', hd'⟩ := comes_settle (s.act move).2
  exact ⟨ds', hd.trans hd'.loosen⟩

/-- A reference that is given back is one elementary change. -/
theorem GivesBack.comes {u : Use} {d : Release} (hg : s.GivesBack u d) :
    ∃ ds, s.Comes True (d :: ds) (s.use u).2 := by
  cases hg with
  | @move move b kernel frames =>
    have htaken : (s.act move).2.taken = s.taken := by
      unfold taken
      rw [frames]
    have hd : s.Comes True [⟨b, (s.kernel.release b).1⟩] (s.act move).2 := by
      rw [Comes, htaken, kernel]
      exact (Kernel.does_release ..).loosen
    exact comes_move hd
  | past used =>
    rw [used]
    exact ⟨[], (Kernel.Change.forgone (r := s.taken)).does⟩

/-- A use of a session changes the table by elementary changes, among which is the reference
that it is told of. -/
theorem comes_use (s : Session) (u : Use) :
    ∃ ds, s.Comes True ds (s.use u).2 ∧ (s.report? u).toList.Sublist ds := by
  cases hr : s.report? u with
  | some d =>
    obtain ⟨ds, hd⟩ := (givesBack_of_report? hr).comes
    exact ⟨d :: ds, hd, (List.nil_sublist ds).cons_cons d⟩
  | none =>
    suffices h : ∃ ds, s.Comes True ds (s.use u).2 from h.imp fun _ hd => ⟨hd, List.nil_sublist _⟩
    cases u with
    | move move =>
      obtain ⟨ds, hd⟩ := comes_act s move
      obtain ⟨ds', hd'⟩ := comes_move (hd.mono fun _ => trivial)
      exact ⟨_, hd'⟩
    | retain slot =>
      exact withSlot_of (P := fun s' => ∃ ds, s.Comes True ds s') ⟨[], .done⟩ fun content =>
        comes_of_evolves (Kernel.tame_retain s.kernel content.block).evolves.loosen rfl
    | release slot =>
      cases hslot : s.slots.get? slot with
      | none =>
        have hnone : s.use (.release slot) = (.emptySlot, s) := by simp only [use, withSlot, hslot]
        exact ⟨[], hnone ▸ .done⟩
      | some content =>
        cases (report?_of_slot hslot).2.2.symm.trans hr

theorem comes_uses (s : Session) (us : List Use) :
    ∃ ds, s.Comes True ds (s.uses us) ∧ (s.reports us).Sublist ds := by
  induction us generalizing s with
  | nil => exact ⟨[], .done, .slnil⟩
  | cons u us ih =>
    rw [uses_cons, reports]
    split
    · obtain ⟨ds, hd, -⟩ := ih s
      exact ⟨ds, hd, List.nil_sublist _⟩
    · obtain ⟨ds, hd, hr⟩ := comes_use s u
      obtain ⟨ds', hd', hr'⟩ := ih (s.use u).2
      exact ⟨_, hd.trans hd', hr.append hr'⟩

/-! ### Blocks without references -/

/-- What can be done with a block that has no references: it is not found, giving back a
reference is refused, and taking one is a fault. -/
structure Dead (s : Session) (b : BlockId) : Prop where
  count : (s.kernel.block b).refCount = 0
  lookup : ∀ p, (s.kernel.get p).1 ≠ some b ∧
    ∀ blocks, s.kernel.pids.getRetained s.kernel.blocks p ≠ some (b, blocks)
  release : (s.kernel.release b).1 = false ∧ (s.kernel.blocks.release b).1 = false
  retain : ∀ slot content, s.slots.get? slot = some content → content.block = b →
    s.kernel.fault = none →
      (s.use (.retain slot)).2.kernel.fault = some (.deadRetain (s.kernel.block b).pid)
  clone : ∀ slot target, s.slots.get? slot = some (.ref b) → s.kernel.fault = none →
    (s.use (.move (.clone slot target))).2.kernel.fault =
      some (.deadRetain (s.kernel.block b).pid)

theorem dead_of_refCount {b : BlockId} (hz : (s.kernel.block b).refCount = 0) : s.Dead b := by
  have hretain : s.kernel.retain b = s.kernel.halt (.deadRetain (s.kernel.block b).pid) := by
    rw [Kernel.retain_eq, if_pos hz]
  have hhalt : s.kernel.fault = none → (s.kernel.retain b).fault =
      some (.deadRetain (s.kernel.block b).pid) := by
    intro hf
    rw [hretain, Kernel.halt, hf]
    rfl
  refine ⟨hz, fun p => ⟨fun hg => ?_, fun blocks hg => ?_⟩, ⟨?_, ?_⟩, ?_, ?_⟩
  · rw [Kernel.get_eq] at hg
    split at hg
    · split at hg
      · next hc =>
        obtain rfl := Option.some.inj hg
        exact hc.2 hz
      · cases hg
    · cases hg
  · unfold PidMap.getRetained at hg
    obtain ⟨c, -, hc⟩ := Option.bind_eq_some_iff.1 hg
    obtain ⟨blocks', htry, heq⟩ := Option.map_eq_some_iff.1 hc
    obtain ⟨rfl, rfl⟩ := Prod.mk.inj heq
    have hz' : (s.kernel.blocks.get c).refCount = 0 := hz
    rw [BlockStore.tryRetain, if_pos hz'] at htry
    cases htry
  · rw [Kernel.release_last, hz]
    rfl
  · rw [Kernel.forgo_last, hz]
    rfl
  · rintro slot content hslot rfl hf
    simp only [use, withSlot, hslot]
    exact hhalt hf
  · intro slot target hslot hf
    have hact : (s.act (.clone slot target)).2 =
        { s with kernel := s.kernel.retain b }.store target (.ref b) := by
      simp only [act, withSlot, hslot]
    have hstored : (s.act (.clone slot target)).2.kernel.fault =
        some (.deadRetain (s.kernel.block b).pid) := by
      rw [hact]
      exact store_of (P := (·.fault = some _)) (hhalt hf)
        (fun b => Kernel.fault_release_of_some (hhalt hf)) target _
    exact settle_of (P := (·.fault = some _)) (fun _ hk => Kernel.fault_wake_of_some hk) hstored

/-! ### Whole programs -/

/-- What becomes of the blocks of a session in the course of a program. -/
structure Perishes (s : Session) (us : List Use) : Prop where
  /-- Among all references given back, with those that moves give back in their course, at
  most one on each block is the last. -/
  releases : ∃ ds, s.Comes True ds (s.uses us) ∧ (s.reports us).Sublist ds ∧
    ∀ b, ds.count ⟨b, true⟩ ≤ 1
  reports : ∀ b, (s.reports us).count ⟨b, true⟩ ≤ 1
  /-- The last one takes the count from one to zero. -/
  last : ∀ u b last, (s.uses us).report? u = some ⟨b, last⟩ →
    (last = true ↔ ((s.uses us).kernel.block b).refCount = 1) ∧
      (last = true → (((s.uses us).use u).2.kernel.block b).refCount = 0)
  /-- A count that is zero stays so, whatever comes. -/
  dead : ∀ b < (s.uses us).kernel.blocks.size, ((s.uses us).kernel.block b).refCount = 0 →
    ∀ more, ((s.uses us).uses more).Dead b
  /-- Each block has a task of its own, and no task is destroyed twice. -/
  tasks : (∀ b < (s.uses us).kernel.blocks.size, ∀ c < (s.uses us).kernel.blocks.size,
      ((s.uses us).kernel.block b).task = ((s.uses us).kernel.block c).task → b = c) ∧
    ∀ t, (s.uses us).kernel.calls.count (.destroyTask t) ≤ 1
  /-- No pid is freed for a block with another one installed there: while the table is live a
  block with references is the one at its pid. -/
  own : (∀ p, (s.uses us).kernel.fault ≠ some (.differentBlock p)) ∧
    ((s.uses us).kernel.live = true → ∀ b, ((s.uses us).kernel.block b).refCount ≠ 0 →
      (s.uses us).kernel.pids.lookup ((s.uses us).kernel.block b).pid = some b)

/-- Whatever a program does with a session from its start, each block is torn down at most
once, and only for itself. -/
theorem torn_down_once {config : Config} {refusal : Option Errno}
    (hb : boot config refusal = .ok s) (us : List Use) : s.Perishes us := by
  obtain ⟨k, hk, rfl⟩ := boot_eq hb
  have hstanding : k.Standing [] := Or.inl (Kernel.intact_boot hk).seated
  obtain ⟨ds, hd, hr⟩ := comes_uses { kernel := k } us
  have hst := hd.standing hstanding
  have hdis := hd.disposed hstanding (Kernel.disposed_boot hk)
  refine ⟨⟨ds, hd, hr, hd.once⟩, fun b => Nat.le_trans (hr.count_le _) (hd.once b), ?_, ?_,
    ⟨hdis.hosted.distinct, hdis.once⟩, fun p hf => ?_, fun hlive b hz => ?_⟩
  · intro u b last hrep
    have hone := report_last hrep
    refine ⟨by rw [hone, decide_eq_true_iff], fun hlast => ?_⟩
    subst hlast
    have hcount := of_decide_eq_true hone.symm
    obtain ⟨ds', hd', hr'⟩ := comes_use (({ kernel := k } : Session).uses us) u
    rw [hrep] at hr'
    refine (hd'.dies ?_ (hcount ▸ Nat.one_ne_zero)).1 (hr'.subset List.mem_cons_self)
    exact Kernel.lt_of_refCount_ne_zero (hcount ▸ Nat.one_ne_zero)
  · intro b hlt hz more
    obtain ⟨ds', hd', -⟩ := comes_uses (({ kernel := k } : Session).uses us) more
    exact dead_of_refCount (hd'.dead hlt hz).1
  · have hfault := hd.fault hstanding hf
    rw [show ({ kernel := k } : Session).kernel.fault = none from (Kernel.alone_boot hk).fault]
      at hfault
    cases hfault
  · rcases hst with hst | hst
    · exact hst.installed b hz
    · rw [hst.live] at hlive
      cases hlive

/-- A created block is released beyond what is held, and a new one gets its pid. The guard on
the first is dropped then, its reference released again, and the table shut down. -/
theorem torn_down_once_before_reuse : ∃ s : Session, ∃ us : List Use,
    boot { maxProcesses := 8 } none = .ok s ∧
      s.reports us =
        [⟨1, false⟩, ⟨1, true⟩, ⟨1, false⟩, ⟨2, false⟩, ⟨1, false⟩, ⟨2, true⟩, ⟨2, false⟩] ∧
      ((s.uses us).kernel.block 1).pid = ((s.uses us).kernel.block 2).pid ∧
      (s.uses us).kernel.fault = none ∧ (s.uses us).kernel.live = false ∧ s.Perishes us := by
  let us : List Use :=
    [.move (.create "a" 0), .move (.resume none), .move (.get 1 1), .move (.overRelease 0),
      .move (.overRelease 0), .move (.overRelease 0),
      .move (.create "b" 2), .move (.resume none), .retain 2, .release 2, .move (.drop 1),
      .release 0, .move .shutdown, .move (.overRelease 2), .move (.release 2)]
  obtain ⟨s, hb, hr, hp, hf, hl⟩ : ∃ s : Session, boot { maxProcesses := 8 } none = .ok s ∧
      s.reports us =
        [⟨1, false⟩, ⟨1, true⟩, ⟨1, false⟩, ⟨2, false⟩, ⟨1, false⟩, ⟨2, true⟩, ⟨2, false⟩] ∧
      ((s.uses us).kernel.block 1).pid = ((s.uses us).kernel.block 2).pid ∧
      (s.uses us).kernel.fault = none ∧ (s.uses us).kernel.live = false :=
    ⟨_, rfl, by decide +kernel⟩
  exact ⟨s, us, hb, hr, hp, hf, hl, torn_down_once hb us⟩

end Session

end Lifecycle

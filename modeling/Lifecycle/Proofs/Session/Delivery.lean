import Lifecycle.Proofs.Session.Running

/-! How the status of a process is delivered. The history of a block from its exit
on is one of six, and its flags say which; so a status is collected at most once, as
it was published, and not beside any other end. -/

namespace Lifecycle

namespace Event

/-- Whether an event is about the end of a block. -/
def ends (b : BlockId) : Event → Bool
  | .exited c _ _ => c == b
  | .inherited c => c == b
  | .collected c _ _ _ => c == b
  | _ => false

def exits (b : BlockId) : Event → Bool
  | .exited c _ _ => c == b
  | _ => false

def collects (b : BlockId) : Event → Bool
  | .collected c _ _ _ => c == b
  | _ => false

theorem ends_of_exits {b : BlockId} {e : Event} (he : e.exits b = true) : e.ends b = true := by
  cases e <;> first | exact he | cases he

theorem ends_of_collects {b : BlockId} {e : Event} (he : e.collects b = true) :
    e.ends b = true := by
  cases e <;> first | exact he | cases he

end Event

/-- What becomes of a block, as its history tells it. -/
inductive Fate (b : BlockId) (x : Block) : List Event → Prop
  | running (exited : x.exited = false) : Fate b x []
  /-- Its fork has failed. -/
  | unwound (reaped : x.reaped = true) : Fate b x []
  | reaped {status} (reaped : x.reaped = true) : Fate b x [.exited b status .reaped]
  | zombie {status} (exited : x.exited = true) (reaped : x.reaped = false)
      (code : x.code = status.encode) : Fate b x [.exited b status .zombie]
  | collected {status caller} (reaped : x.reaped = true) :
      Fate b x [.exited b status .zombie, .collected b caller x.pid status.encode]
  | inherited {status} (reaped : x.reaped = true) :
      Fate b x [.exited b status .zombie, .inherited b]

namespace Fate

variable {b : BlockId} {x y : Block} {es : List Event}

theorem congr (he : Fate b x es) (hp : y.pid = x.pid) (hx : y.exited = x.exited)
    (hr : y.reaped = x.reaped) (hc : y.code = x.code) : Fate b y es := by
  cases he with
  | running exited => exact .running (hx.trans exited)
  | unwound reaped => exact .unwound (hr.trans reaped)
  | reaped reaped => exact .reaped (hr.trans reaped)
  | zombie exited reaped code => exact .zombie (hx.trans exited) (hr.trans reaped) (hc.trans code)
  | collected reaped => exact hp ▸ .collected (hr.trans reaped)
  | inherited reaped => exact .inherited (hr.trans reaped)

theorem of_core (he : Fate b x es) (hc : y.core = x.core) : Fate b y es :=
  he.congr (Block.pid_of_core hc) (Block.exited_of_core hc) (Block.reaped_of_core hc)
    (Block.code_of_core hc)

/-- A process that runs has no end yet. -/
theorem eq_nil (he : Fate b x es) (hx : x.exited = false) (hr : x.reaped = false) : es = [] := by
  cases he with
  | running => rfl
  | unwound => rfl
  | reaped reaped => cases hr.symm.trans reaped
  | zombie exited => cases hx.symm.trans exited
  | collected reaped => cases hr.symm.trans reaped
  | inherited reaped => cases hr.symm.trans reaped

/-- A zombie has exited and its status is published. -/
theorem of_zombie (he : Fate b x es) (hx : x.exited = true) (hr : x.reaped = false) :
    ∃ status : ExitStatus, es = [.exited b status .zombie] ∧ x.code = status.encode := by
  cases he with
  | running exited => cases hx.symm.trans exited
  | unwound reaped => cases hr.symm.trans reaped
  | reaped reaped => cases hr.symm.trans reaped
  | zombie _ _ code => exact ⟨_, rfl, code⟩
  | collected reaped => cases hr.symm.trans reaped
  | inherited reaped => cases hr.symm.trans reaped

/-! ### What each fate says of the status -/

theorem exits_le (he : Fate b x es) : (es.filter (·.exits b)).length ≤ 1 := by
  cases he <;> simp [Event.exits]

theorem collects_le (he : Fate b x es) : (es.filter (·.collects b)).length ≤ 1 := by
  cases he <;> simp [Event.collects]

theorem published (he : Fate b x es) {pre post : List Event} {caller pid : Pid} {raw : RawStatus}
    (hes : es = pre ++ .collected b caller pid raw :: post) :
    pid = x.pid ∧ ∃ status : ExitStatus, .exited b status .zombie ∈ pre ∧ raw = status.encode := by
  -- the status is the last of two events, so there is one before it
  cases he <;> rcases pre with _ | ⟨e, _ | ⟨e', pre⟩⟩ <;> simp at hes
  obtain ⟨rfl, ⟨rfl, rfl, rfl⟩, -⟩ := hes
  exact ⟨rfl, _, List.mem_singleton.2 rfl, rfl⟩

theorem reaped_alone (he : Fate b x es) {status : ExitStatus}
    (hx : .exited b status .reaped ∈ es) : es.filter (·.collects b) = [] := by
  cases he with
  | reaped => rfl
  | _ => simp at hx

theorem reaped_of_collected (he : Fate b x es) {caller pid : Pid} {raw : RawStatus}
    (hc : .collected b caller pid raw ∈ es) : x.reaped = true := by
  cases he with
  | collected reaped => exact reaped
  | _ => simp at hc

theorem of_exited (he : Fate b x es) {status : ExitStatus} (hx : .exited b status .zombie ∈ es) :
    x.state = .zombie ∧ es.filter (·.collects b) = [] ∧ .inherited b ∉ es ∨
    x.state = .reaped ∧ (es.filter (·.collects b)).length = 1 ∧ .inherited b ∉ es ∨
    x.state = .reaped ∧ es.filter (·.collects b) = [] ∧ .inherited b ∈ es := by
  rw [Block.state_eq_reaped_iff, Block.state_eq_zombie_iff]
  cases he with
  | zombie exited reaped => exact Or.inl ⟨⟨reaped, exited⟩, rfl, by simp⟩
  | collected reaped => exact Or.inr (Or.inl ⟨reaped, by simp [Event.collects], by simp⟩)
  | inherited reaped => exact Or.inr (Or.inr ⟨reaped, rfl, by simp⟩)
  | _ => simp at hx

end Fate

/-- Every block has one of these fates. -/
def Fates (k : Kernel) (h : List Event) : Prop :=
  ∀ b, Fate b (k.block b) (h.filter (·.ends b))

namespace Fates

variable {k k' : Kernel} {h : List Event}

theorem append (hk : Fates k h) {es : List Event}
    (hstep : ∀ b, Fate b (k.block b) (h.filter (·.ends b)) →
      Fate b (k'.block b) (h.filter (·.ends b) ++ es.filter (·.ends b))) : Fates k' (h ++ es) :=
  fun b => by
    rw [List.filter_append]
    exact hstep b (hk b)

/-- Events that are about no end, while no flag of an end rises. -/
theorem silent (hk : Fates k h) {es : List Event} (he : ∀ b, es.filter (·.ends b) = [])
    (hstep : ∀ b es, Fate b (k.block b) es → Fate b (k'.block b) es) : Fates k' (h ++ es) :=
  hk.append fun b hb => by
    rw [he, List.append_nil]
    exact hstep b _ hb

theorem quiet (hk : Fates k h) (hq : k.Quiet k') : Fates k' h :=
  fun b => (hk b).of_core (hq.core b)

/-- A change of one block in nothing that a fate is about. -/
theorem update {f : Block → Block} {c : BlockId} (hq : (k.update c f).Quiet k')
    (hp : (f (k.block c)).pid = (k.block c).pid)
    (hx : (f (k.block c)).exited = (k.block c).exited)
    (hr : (f (k.block c)).reaped = (k.block c).reaped)
    (hc : (f (k.block c)).code = (k.block c).code) (b : BlockId) (es : List Event)
    (hb : Fate b (k.block b) es) : Fate b (k'.block b) es := by
  refine Fate.of_core ?_ (hq.core b)
  rw [Kernel.block_update]
  split
  · next he =>
    rw [he.1] at hb ⊢
    exact hb.congr hp hx hr hc
  · exact hb

/-- A new block has none yet. -/
theorem add (hk : Fates k h) {pid : Pid} {name : String} {task : TaskHandle}
    (hb : k'.blocks = k.blocks.add (.fresh pid name task)) : Fates k' h := by
  intro b
  have hold := hk b
  rw [Kernel.block_of_add hb]
  split
  · next he =>
    have hdefault := Kernel.block_of_size_le (Nat.le_of_eq he.symm)
    rw [hdefault] at hold
    rw [hold.eq_nil rfl rfl]
    exact .running rfl
  · exact hold

/-- Collecting a zombie gives the status that its exit published. -/
theorem collected (hk : Fates k h) {c : BlockId} (caller : Pid) {f : Block → Block}
    (he : (k.block c).exited = true) (hr : (k.block c).reaped = false)
    (hp : (f (k.block c)).pid = (k.block c).pid) (hf : (f (k.block c)).reaped = true)
    (hq : (k.update c f).Quiet k') :
    Fates k' (h ++ [.collected c caller (k.block c).pid (k.block c).code]) := by
  refine hk.append fun b hb => Fate.of_core ?_ (hq.core b)
  by_cases hbc : b = c
  · subst hbc
    have hlt : b < k.blocks.size := Nat.lt_of_not_le fun hle => by
      rw [Kernel.block_of_size_le hle] at he
      cases he
    obtain ⟨status, hes, hcode⟩ := hb.of_zombie he hr
    rw [Kernel.block_update_self hlt, hes, hcode, ← hp]
    have hown : [Event.collected b caller (f (k.block b)).pid status.encode].filter (·.ends b) =
        [.collected b caller (f (k.block b)).pid status.encode] := by
      simp [Event.ends]
    rw [hown]
    exact .collected hf
  · have hother : [Event.collected c caller (k.block c).pid (k.block c).code].filter (·.ends b) =
        [] := by simp [Event.ends, Ne.symm hbc]
    rw [Kernel.block_update_of_ne hbc, hother, List.append_nil]
    exact hb

/-- Sleepers that wake collect zombies. -/
theorem wake (hk : Fates k h) {g es : List Event} (hw : Wakes g k es k') : Fates k' (h ++ es) := by
  induction hw generalizing h with
  | done => rwa [List.append_nil]
  | gone quiet _ ih => exact ih (hk.quiet quiet)
  | collected _ reaped exited quiet _ ih =>
    rw [List.append_cons]
    exact ih (hk.collected _ exited reaped rfl rfl quiet)

end Fates

namespace Session

variable {s : Session} {h : List Event}

theorem mem_heirs {pid : Pid} {k' : Kernel} {c : BlockId} :
    c ∈ s.heirs pid k' ↔ c < s.kernel.blocks.size ∧ (s.kernel.block c).parent = some pid ∧
      (s.kernel.block c).state = .zombie ∧ (k'.block c).state = .reaped := by
  simp only [heirs, List.mem_filter, List.mem_range, Bool.and_eq_true, beq_iff_eq, and_assoc]

/-- An exit tells of its own block once, and of each child it reaps once. -/
theorem filter_ends_exit (pid : Pid) (k' : Kernel) (c b : BlockId) (status : ExitStatus)
    (path : ExitPath) :
    ((s.heirs pid k').map Event.inherited ++ [Event.exited c status path]).filter (·.ends b) =
      (if b ∈ s.heirs pid k' then [Event.inherited b] else []) ++
        if c = b then [Event.exited c status path] else [] := by
  have hn : (s.heirs pid k').Nodup := List.nodup_range.filter _
  have hb : (fun e => Event.ends b e) ∘ Event.inherited = (· == b) := rfl
  rw [List.filter_append, List.filter_map, hb, List.filter_beq, hn.count]
  congr 1
  · split <;> rfl
  · by_cases hc : c = b <;> simp [Event.ends, hc]

theorem Sound.fates_left (hs : s.Sound h) (hf : Fates s.kernel h) {pid : Pid}
    {status : ExitStatus} {c : BlockId} {k' : Kernel}
    (found : s.kernel.pids.lookup pid = some c) (running : (s.kernel.block c).exiting = false)
    (core : ∀ x, (k'.block x).core = (s.kernel.departure c status.encode x).core) :
    Fates k' (h ++ ((s.heirs pid k').map .inherited ++
      [.exited c status (s.kernel.exitPath c)])) := by
  have hx := hs.kernel.exited_of_not_exiting running
  have hr := hs.kernel.reaped_of_not_exiting running
  have hpid := (hs.kernel.placed.own found).2
  refine hf.append fun b hb => ?_
  rw [filter_ends_exit]
  by_cases hbc : c = b
  · subst hbc
    have hnot : c ∉ s.heirs pid k' := fun hm => by
      have hz := ((Block.state_eq_zombie_iff _).1 (mem_heirs.1 hm).2.2.1).2
      cases hx.symm.trans hz
    rw [if_neg hnot, if_pos rfl, hb.eq_nil hx hr]
    refine Fate.of_core ?_ (core c)
    rw [Kernel.departure_self, Kernel.exitPath]
    split
    · next hp => exact .reaped (decide_eq_true hp)
    · next hp => exact .zombie rfl (decide_eq_false hp) rfl
  · rw [if_neg hbc, List.append_nil]
    by_cases hm : b ∈ s.heirs pid k'
    · obtain ⟨-, -, hz, hreaped⟩ := mem_heirs.1 hm
      obtain ⟨hzr, hzx⟩ := (Block.state_eq_zombie_iff _).1 hz
      obtain ⟨st, hes, -⟩ := hb.of_zombie hzx hzr
      rw [if_pos hm, hes]
      exact .inherited ((Block.state_eq_reaped_iff _).1 hreaped)
    · rw [if_neg hm, List.append_nil]
      refine Fate.of_core ?_ (core b)
      have hheir := Block.reaped_of_core (core b)
      have hd := s.kernel.becomes c status.encode b
      generalize s.kernel.departure c status.encode b = y at hd hheir ⊢
      cases hd with
      | departed self => exact absurd self.symm hbc
      | reaped _ child exited =>
        cases hbr : (s.kernel.block b).reaped with
        | true => exact hb.congr rfl rfl hbr.symm rfl
        | false =>
          -- a zombie among the children is an heir
          obtain ⟨hi, hl⟩ := hs.kernel.mem_childBlocks.1 child
          obtain ⟨x, q, hx, -, hpar, -⟩ := hs.kernel.kindred.linked hl
          rw [hi] at hx
          obtain rfl := Option.some.inj hx
          exact absurd (mem_heirs.2 ⟨(hs.kernel.placed.own hi).1, hpar.trans (by rw [hpid]),
            (Block.state_eq_zombie_iff _).2 ⟨hbr, exited⟩,
            (Block.state_eq_reaped_iff _).2 hheir⟩) hm
      | adopted => exact hb.congr rfl rfl rfl rfl
      | kept => exact hb

/-- What a move does before any sleeper wakes keeps the fates. -/
theorem Sound.fates_act (hs : s.Sound h) (hf : Fates s.kernel h) {move : Move}
    {es : List Event} {k' : Kernel} (he : s.Effect h move es k') : Fates k' (h ++ es) := by
  cases he with
  | quiet quiet => exact hf.silent (fun _ => rfl) fun b _ hb => hb.of_core (quiet.core b)
  | surrendered free quiet => exact hf.silent (fun _ => rfl) fun b _ hb => hb.of_core (quiet.core b)
  | made blocks quiet =>
    rw [List.append_nil]
    exact (hf.add blocks).quiet quiet
  | born blocks => exact (hf.add blocks).silent (fun _ => rfl) fun _ _ hb => hb
  | linked half forker running held quiet =>
    exact hf.silent (fun _ => rfl) (Fates.update quiet rfl rfl rfl rfl)
  | @unwound refusal parent child _ flight forker running quiet =>
    have hr := hs.kernel.reaped_of_not_exiting running
    have hx := hs.kernel.exited_of_not_exiting running
    refine hf.append fun b hb => Fate.of_core ?_ (quiet.core b)
    rw [Kernel.block_update]
    split
    · next hbc =>
      obtain ⟨rfl, -⟩ := hbc
      rw [hb.eq_nil hx hr]
      exact .unwound rfl
    · rwa [List.filter_nil, List.append_nil]
  | left found forker running landed size core => exact hs.fates_left hf found running core
  | slept named found parent waiter reaped exited quiet =>
    exact hf.silent (fun _ => rfl) (Fates.update quiet rfl rfl rfl rfl)
  | @collected caller _ _ _ _ pid b _ named found parent waiter reaped exited quiet =>
    have hcommit : Fates s.kernel (h ++ [.committed b caller]) :=
      hf.silent (fun _ => rfl) fun _ _ hb => hb
    have hc := hcommit.collected caller (f := fun x => x.committed.collected)
      exited reaped rfl rfl quiet
    rw [(hs.kernel.placed.own found).2, List.append_assoc] at hc
    exact hc

theorem Sound.fates_run (hs : s.Sound h) (hf : Fates s.kernel h) {moves : List Move}
    (hl : s.lawful h moves = true) : Fates (s.run moves).kernel (s.history h moves) := by
  refine (run_induction (P := fun s h => Fates s.kernel h) ?_ hs hl hf).2
  intro s h move hs hp hf
  obtain ⟨acted, told, k, he, hstep⟩ := hs.step hp
  rw [he, ← List.append_assoc]
  exact (hs.fates_act hf hstep.effect).wake hstep.wakes

/-- With no history nothing has begun to exit. -/
theorem Sound.fates_nil (hs : s.Sound []) : Fates s.kernel [] := fun b =>
  .running <| Bool.eq_false_iff.2 fun hx => by
    obtain ⟨q, hq⟩ := hs.kernel.kindred.forked (hs.kernel.ordered.exiting b hx)
    cases hq

/-! ### Delivery -/

/-- How the status of a block is delivered. -/
structure Delivers (s : Session) (h : List Event) (b : BlockId) : Prop where
  exited_once : (h.filter (·.exits b)).length ≤ 1
  collected_once : (h.filter (·.collects b)).length ≤ 1
  /-- What is collected was published before. -/
  published : ∀ {pre post caller pid raw}, h = pre ++ .collected b caller pid raw :: post →
    pid = (s.kernel.block b).pid ∧ ∃ status, .exited b status .zombie ∈ pre ∧ raw = status.encode
  never : ∀ {status}, .exited b status .reaped ∈ h → h.filter (·.collects b) = []
  /-- A zombie stays one until it is collected or inherited. -/
  zombie : ∀ {status}, .exited b status .zombie ∈ h →
    (s.kernel.block b).state = .zombie ∧ h.filter (·.collects b) = [] ∧ .inherited b ∉ h ∨
    (s.kernel.block b).state = .reaped ∧ (h.filter (·.collects b)).length = 1 ∧ .inherited b ∉ h ∨
    (s.kernel.block b).state = .reaped ∧ h.filter (·.collects b) = [] ∧ .inherited b ∈ h

/-- The events of a kind among those about an end. -/
theorem filter_filter_ends {b : BlockId} {p : Event → Bool}
    (hp : ∀ {e : Event}, p e = true → e.ends b = true) (h : List Event) :
    (h.filter (·.ends b)).filter p = h.filter p := by
  rw [List.filter_filter]
  refine List.filter_congr fun e _ => ?_
  cases he : p e with
  | false => rfl
  | true => rw [hp he]; rfl

theorem delivers_of_fate {b : BlockId}
    (hb : Fate b (s.kernel.block b) (h.filter (·.ends b))) : s.Delivers h b := by
  have hexits := filter_filter_ends (b := b) Event.ends_of_exits h
  have hcollects := filter_filter_ends (b := b) Event.ends_of_collects h
  have hmem : ∀ {e : Event}, e.ends b = true → (e ∈ h ↔ e ∈ h.filter (·.ends b)) :=
    fun he => by rw [List.mem_filter, and_iff_left he]
  have hown : (b == b) = true := beq_self_eq_true b
  refine ⟨hexits ▸ hb.exits_le, hcollects ▸ hb.collects_le, fun {pre post caller pid raw} hes => ?_,
    fun hx => hcollects ▸ hb.reaped_alone ((hmem (by exact hown)).1 hx), fun hx => ?_⟩
  · have hsplit : h.filter (·.ends b) =
        pre.filter (·.ends b) ++ .collected b caller pid raw :: post.filter (·.ends b) := by
      rw [hes, List.filter_append, List.filter_cons_of_pos (by exact hown)]
    obtain ⟨hp, status, hm, hraw⟩ := hb.published hsplit
    exact ⟨hp, status, List.mem_of_mem_filter hm, hraw⟩
  · rw [hmem (e := .inherited b) hown, ← hcollects]
    exact hb.of_exited ((hmem (by exact hown)).1 hx)

/-- After any permitted moves the status of every block is delivered as it was published,
at most once, and to one party alone. -/
theorem status_delivered {config : Config} {refusal : Option Errno} {moves : List Move}
    (hb : boot config refusal = .ok s) (hl : s.lawful [] moves = true) (b : BlockId) :
    (s.run moves).Delivers (s.history [] moves) b :=
  have hs := (sound_boot hb).1
  delivers_of_fate (hs.fates_run hs.fates_nil hl b)

/-- A child exits while its parent sleeps on it, and its own child is inherited by the
exit of the parent. -/
theorem status_delivered_to_sleeper : ∃ s : Session, ∃ moves : List Move,
    boot { maxProcesses := 8 } none = .ok s ∧ s.lawful [] moves = true ∧
      (s.run moves).Delivers (s.history [] moves) 2 ∧
      (s.run moves).Delivers (s.history [] moves) 3 ∧
      .collected 2 1 2 (ExitStatus.encode ⟨.exited, 7⟩) ∈ s.history [] moves ∧
      .inherited 3 ∈ s.history [] moves := by
  let moves : List Move :=
    [.fork 0 .context, .resume none, .resume none, .resume none, .resume none,
      .fork 1 .context, .resume none, .resume none, .resume none, .resume none,
      .fork 1 .context, .resume none, .resume none, .resume none, .resume none,
      .wait 1 2 0 .context none, .exit 2 ⟨.exited, 7⟩, .exit 3 ⟨.exited, 9⟩,
      .exit 1 ⟨.exited, 0⟩]
  obtain ⟨s, hb, hl, hc, hi⟩ : ∃ s : Session, boot { maxProcesses := 8 } none = .ok s ∧
      s.lawful [] moves = true ∧
      .collected 2 1 2 (ExitStatus.encode ⟨.exited, 7⟩) ∈ s.history [] moves ∧
      .inherited 3 ∈ s.history [] moves := ⟨_, rfl, by decide +kernel⟩
  exact ⟨s, moves, hb, hl, status_delivered hb hl 2, status_delivered hb hl 3, hc, hi⟩

end Session

end Lifecycle

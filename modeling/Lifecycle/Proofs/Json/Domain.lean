import Lifecycle.Json.Domain
import Lifecycle.Proofs.Json.Values

/-! The values that leave the kernel are read back from their texts, and an object denotes the
same value whatever the order of its fields and whatever fields of other names are among them. -/

namespace Lifecycle

namespace Json

variable {α : Type} {names : List String} {own fields : List (String × Json)}

/-- The value that a text denotes. -/
def read? (ofJson? : Json → Option α) (text : String) : Option α :=
  (parse? text.toList).bind ofJson?

theorem read?_compress {ofJson? : Json → Option α} {v : Json} {a : α} (hv : v.Writable)
    (h : ofJson? v = some a) : read? ofJson? v.compress = some a := by
  rw [read?, compress, String.toList_ofList, parse?_write hv, Option.bind_some, h]

/-! ### The order of fields -/

/-- Of the fields with these names there are `own` and no more, in any order and with any other
fields between them. -/
def Among (names : List String) (own fields : List (String × Json)) : Prop :=
  (fields.filter fun f => names.contains f.1).Perm own

theorem among_self (h : ∀ f ∈ own, f.1 ∈ names) : Among names own own := by
  rw [Among, List.filter_eq_self.2 (by simpa using h)]

/-- A field of these names has the same values in every order, unless it is repeated. -/
theorem Among.values_eq (h : Among names own fields) {name : String} (hname : name ∈ names) :
    valuesOf name fields = valuesOf name own ∨
      1 < (valuesOf name fields).length ∧ 1 < (valuesOf name own).length := by
  -- a field of that name is not lost among the fields of these names
  have hfilter : (fields.filter fun f => names.contains f.1).filter (·.1 == name) =
      fields.filter (·.1 == name) := by
    rw [List.filter_filter]
    refine List.filter_congr fun f _ => ?_
    by_cases hf : f.1 = name
    · simp [hf, hname]
    · simp [hf]
  have hperm : (valuesOf name fields).Perm (valuesOf name own) := by
    rw [valuesOf, valuesOf, ← hfilter]
    exact (h.filter _).map _
  match hv : valuesOf name own, hperm with
  | [], hperm => exact Or.inl (List.perm_nil.1 hperm)
  | [v], hperm => exact Or.inl (List.perm_singleton.1 hperm)
  | _ :: _ :: _, hperm => exact Or.inr ⟨by simp [hperm.length_eq], by simp⟩

theorem field?_eq_none_of_repeated {name : String} (h : 1 < (valuesOf name fields).length) :
    field? name fields = none ∧ optionalField? name fields = none := by
  unfold field? optionalField?
  match hv : valuesOf name fields with
  | [] | [_] => simp [hv] at h
  | _ :: _ :: _ => exact ⟨rfl, rfl⟩

theorem Among.lookup_eq (h : Among names own fields) (name : String) (hname : name ∈ names) :
    field? name fields = field? name own ∧
      optionalField? name fields = optionalField? name own := by
  rcases h.values_eq hname with hv | ⟨hf, ho⟩
  · exact ⟨by rw [field?, field?, hv], by rw [optionalField?, optionalField?, hv]⟩
  · obtain ⟨hf, hf'⟩ := field?_eq_none_of_repeated hf
    obtain ⟨ho, ho'⟩ := field?_eq_none_of_repeated ho
    exact ⟨hf.trans ho.symm, hf'.trans ho'.symm⟩

/-- Tag and content are found in every order. Only whether the content is kept may change, and a
content that can be kept is not lost. -/
theorem Among.tagged?_eq {tag content : String} (h : Among [tag, content] own fields) {t : String}
    {c : Option Json} (htag : field? tag own = some (.str t))
    (hcontent : optionalField? content own = some c) (hc : c.all isKeepable) :
    ∃ kept, tagged? tag content (.obj fields) = some ⟨t, c, kept⟩ := by
  have ht := (h.lookup_eq tag (by simp)).1.trans htag
  have hc' := (h.lookup_eq content (by simp)).2.trans hcontent
  refine ⟨contentFirst tag content fields, ?_⟩
  simp [tagged?, ht, hc', hc, name?]

/-! ### Words -/

theorem intWithin?_int {lo hi n : Int} (h : lo ≤ n ∧ n < hi) :
    (Json.int n).intWithin? lo hi = some n :=
  if_pos h

theorem int32?_toInt (n : Int32) : (Json.int n.toInt).int32? = some n := by
  have hhigh : n.toInt < Int32.maxValue.toInt + 1 := n.toInt_lt
  rw [int32?, intWithin?_int ⟨n.minValue_le_toInt, hhigh⟩, Option.map_some, Int32.ofInt_toInt]

theorem int64?_toInt (n : Int64) : (Json.int n.toInt).int64? = some n := by
  have hhigh : n.toInt < Int64.maxValue.toInt + 1 := n.toInt_lt
  rw [int64?, intWithin?_int ⟨n.minValue_le_toInt, hhigh⟩, Option.map_some, Int64.ofInt_toInt]

theorem uint32?_toNat (n : UInt32) : (Json.nat n.toNat).uint32? = some n := by
  have hlow : 0 ≤ Int.ofNat n.toNat := Int.natCast_nonneg _
  have hhigh : Int.ofNat n.toNat < UInt32.size := Int.ofNat_lt.2 n.toNat_lt_size
  rw [uint32?, nat, intWithin?_int ⟨hlow, hhigh⟩, Option.map_some]
  simp

theorem uint64?_toNat (n : UInt64) : (Json.nat n.toNat).uint64? = some n := by
  have hlow : 0 ≤ Int.ofNat n.toNat := Int.natCast_nonneg _
  have hhigh : Int.ofNat n.toNat < UInt64.size := Int.ofNat_lt.2 n.toNat_lt_size
  rw [uint64?, nat, intWithin?_int ⟨hlow, hhigh⟩, Option.map_some]
  simp

theorem writable_int {n : Int} (hlow : -2 ^ 63 ≤ n) (hhigh : n < 2 ^ 64) : (Json.int n).Writable :=
  ⟨hlow, hhigh⟩

theorem writable_int32 (n : Int32) : (Json.int n.toInt).Writable := by
  have hlow := n.le_toInt
  have hhigh := n.toInt_lt
  exact writable_int (by omega) (by omega)

theorem writable_int64 (n : Int64) : (Json.int n.toInt).Writable := by
  have hhigh := n.toInt_lt
  exact writable_int n.le_toInt (by omega)

theorem writable_uint32 (n : UInt32) : (Json.nat n.toNat).Writable := by
  have hhigh := n.toNat_lt
  exact writable_int (by simp) (by simp; omega)

theorem writable_uint64 (n : UInt64) : (Json.nat n.toNat).Writable := by
  have hhigh := n.toNat_lt
  exact writable_int (by simp) (by simp; omega)

/-! ### Objects as texts -/

/-- The text of an object that has the fields of the value, in any order and with any fields of
other names than these among them. -/
def Rearranged (names : List String) (v : Json) (text : String) : Prop :=
  ∃ own fields, v = .obj own ∧ Among names own fields ∧ parse? text.toList = some (.obj fields)

/-- Whatever can be written stands in the text of some object among the fields of the value. -/
theorem rearranged_compress (hown : (Json.obj own).Writable) (h : Among names own fields)
    (hother : ∀ f ∈ fields, f.1 ∉ names → f.2.Writable) :
    Rearranged names (.obj own) (Json.obj fields).compress := by
  have hfields : (Json.obj fields).Writable := by
    refine fieldsWritable_iff.2 fun f hf => ?_
    by_cases hname : f.1 ∈ names
    · have hmem : f ∈ own := h.mem_iff.1 (List.mem_filter.2 ⟨hf, by simpa using hname⟩)
      exact fieldsWritable_iff.1 hown f hmem
    · exact hother f hf hname
  exact ⟨own, fields, rfl, h, by rw [compress, String.toList_ofList, parse?_write hfields]⟩

/-- Objects with fields of these names that are read by name. -/
structure ReadsFields (names : List String) (toJson : α → Json) (ofJson? : Json → Option α) :
    Prop where
  writable : ∀ a, (toJson a).Writable
  fields : ∀ a, ∃ own, toJson a = .obj own ∧ (∀ f ∈ own, f.1 ∈ names) ∧
    ∀ fields, Among names own fields → ofJson? (.obj fields) = some a

/-- A form of values as texts: the written text denotes the value, and so does every text that has
the same fields in another order and among others. -/
structure RoundTrips (names : List String) (toJson : α → Json) (ofJson? : Json → Option α) :
    Prop where
  compress : ∀ a, read? ofJson? (toJson a).compress = some a
  rearranged : ∀ a text, Rearranged names (toJson a) text → read? ofJson? text = some a
  /-- There are such texts for every order and for all fields that can be written. -/
  written : ∀ a own fields, toJson a = .obj own → Among names own fields →
    (∀ f ∈ fields, f.1 ∉ names → f.2.Writable) →
    Rearranged names (toJson a) (Json.obj fields).compress

theorem ReadsFields.roundTrips {toJson : α → Json} {ofJson? : Json → Option α}
    (h : ReadsFields names toJson ofJson?) : RoundTrips names toJson ofJson? where
  compress a := by
    obtain ⟨own, hv, hown, hread⟩ := h.fields a
    exact read?_compress (h.writable a) (by rw [hv, hread own (among_self hown)])
  rearranged a text := by
    rintro ⟨own, fields, hv, hamong, htext⟩
    obtain ⟨own', hv', -, hread⟩ := h.fields a
    obtain rfl : own' = own := by cases hv.symm.trans hv'; rfl
    rw [read?, htext, Option.bind_some, hread fields hamong]
  written a own fields hv hamong hother := by
    have hown := h.writable a
    rw [hv] at hown ⊢
    exact rearranged_compress hown hamong hother

end Json

open Json

/-! ### The forms of the values -/

theorem ExitStatus.readsFields :
    ReadsFields ["kind", "value"] ExitStatus.toJson ExitStatus.ofJson? where
  writable status := ⟨trivial, writable_int32 status.value, trivial⟩
  fields status := by
    refine ⟨_, rfl, by simp, fun fields h => ?_⟩
    obtain ⟨kept, hread⟩ := h.tagged?_eq rfl rfl rfl
    rw [ofJson?, hread]
    simp [int32?_toInt]

theorem WaitStatus.ofJson?_toJson (status : WaitStatus) : ofJson? status.toJson = some status := by
  rw [ofJson?, toJson, int32?_toInt, Option.map_some]

namespace ProcessError

/-- The details are no more than a flat object, so they can be kept until the tag is known. -/
theorem isKeepable_details? (error : ProcessError) : error.details?.all isKeepable := by
  cases error <;>
    simp [details?, isKeepable, isReadable, fieldsReadable, depth, depthOfFields, keptDepth, nat,
      HostService.toJson, Errno.toJson]

/-- Tag and details say which error it is, kept or not. -/
theorem ofTagged?_details? (error : ProcessError) (kept : Bool) :
    ofTagged? ⟨error.tag, error.details?, kept⟩ = some error := by
  cases error with
  -- the parts are read one by one: no step may compute a reader on a word that is not known
  | pidExhausted capacity =>
    have hcapacity : (field? "capacity" [("capacity", .nat capacity.toNat)]).bind uint64? =
        some capacity :=
      Option.bind_eq_some_iff.2 ⟨_, rfl, uint64?_toNat capacity⟩
    simp only [ofTagged?, tag, details?]
    exact Option.bind_eq_some_iff.2 ⟨_, rfl, Option.bind_eq_some_iff.2 ⟨_, hcapacity, rfl⟩⟩
  | noSuchProcess pid =>
    have hpid : (some (Json.int pid.toInt)).bind int64? = some pid :=
      Option.bind_eq_some_iff.2 ⟨_, rfl, int64?_toInt pid⟩
    simp only [ofTagged?, tag, details?, hpid, Option.map_some]
  | notChild pid caller =>
    have hpid : (field? "pid" [("pid", .nat pid.toNat), ("caller", .nat caller.toNat)]).bind
        uint32? = some pid :=
      Option.bind_eq_some_iff.2 ⟨_, rfl, uint32?_toNat pid⟩
    have hcaller : (field? "caller" [("pid", .nat pid.toNat), ("caller", .nat caller.toNat)]).bind
        uint32? = some caller :=
      Option.bind_eq_some_iff.2 ⟨_, rfl, uint32?_toNat caller⟩
    simp only [ofTagged?, tag, details?]
    exact Option.bind_eq_some_iff.2 ⟨_, rfl, Option.bind_eq_some_iff.2 ⟨_, hpid,
      Option.bind_eq_some_iff.2 ⟨_, hcaller, rfl⟩⟩⟩
  | alreadyWaited pid =>
    have hpid : (some (Json.nat pid.toNat)).bind uint32? = some pid :=
      Option.bind_eq_some_iff.2 ⟨_, rfl, uint32?_toNat pid⟩
    simp only [ofTagged?, tag, details?, hpid, Option.map_some]
  | invalidOptions options =>
    have hoptions : (some (Json.int options.toInt)).bind int32? = some options :=
      Option.bind_eq_some_iff.2 ⟨_, rfl, int32?_toInt options⟩
    simp only [ofTagged?, tag, details?, hoptions, Option.map_some]
  | host service errno =>
    simp [ofTagged?, tag, details?, fieldsOf?, field?, valuesOf, name?, HostService.toJson,
      Errno.toJson]
  | invalidConfig reason => rfl
  | shutDown => rfl

theorem readsFields :
    ReadsFields ["error_type", "details"] ProcessError.toJson ProcessError.ofJson? where
  writable error := by
    cases error with
    | noSuchProcess pid => exact ⟨trivial, writable_int64 pid, trivial⟩
    | invalidOptions options => exact ⟨trivial, writable_int32 options, trivial⟩
    | _ =>
      simp [toJson, details?, Writable, FieldsWritable, HostService.toJson, Errno.toJson,
        writable_uint32, writable_uint64]
  fields error := by
    refine ⟨_, rfl, ?_, fun fields h => ?_⟩
    · cases error <;> simp [details?]
    · have hcontent : optionalField? "details"
          (("error_type", .str error.tag) :: (error.details?.map ("details", ·)).toList) =
          some error.details? := by
        cases error.details? <;> rfl
      obtain ⟨kept, hread⟩ := h.tagged?_eq (by cases error.details? <;> rfl) hcontent
        error.isKeepable_details?
      rw [ofJson?, hread, Option.bind_some, ofTagged?_details?]

end ProcessError

theorem Config.readsFields :
    ReadsFields ["max_processes", "kernel_name"] Config.toJson Config.ofJson? where
  writable config := by
    simp [toJson, Writable, FieldsWritable, writable_uint64]
  fields config := by
    refine ⟨_, rfl, by simp, fun fields h => ?_⟩
    have hsize : (field? "max_processes" fields).bind uint64? = some config.maxProcesses :=
      Option.bind_eq_some_iff.2
        ⟨_, (h.lookup_eq "max_processes" (by simp)).1, uint64?_toNat config.maxProcesses⟩
    have hname : (field? "kernel_name" fields).bind str? = some config.kernelName :=
      Option.bind_eq_some_iff.2 ⟨_, (h.lookup_eq "kernel_name" (by simp)).1, rfl⟩
    simp only [ofJson?, hsize, hname, bind, Option.bind_some, pure]

theorem SyscallResult.errnoOfJson?_ofOption (errno : Option Errno) :
    errnoOfJson? (.ofOption Errno.toJson errno) = some errno := by
  cases errno with
  | none => rfl
  | some errno => simp [ofOption, Errno.toJson, errnoOfJson?, Errno.ofJson?, name?]

theorem SyscallResult.readsFields :
    ReadsFields ["retval", "errno"] SyscallResult.toJson SyscallResult.ofJson? where
  writable result := ⟨writable_int32 result.retval, by cases result.errno <;> trivial, trivial⟩
  fields result := by
    refine ⟨_, rfl, by simp, fun fields h => ?_⟩
    have hretval : (field? "retval" fields).bind int32? = some result.retval :=
      Option.bind_eq_some_iff.2
        ⟨_, (h.lookup_eq "retval" (by simp)).1, int32?_toInt result.retval⟩
    have herrno : optionalField? "errno" fields =
        some (some (.ofOption Errno.toJson result.errno)) :=
      (h.lookup_eq "errno" (by simp)).2
    simp only [ofJson?, hretval, herrno, bind, Option.bind_some, Option.getD_some,
      errnoOfJson?_ofOption, pure]

/-- Each value is read back from its text. The forms with a tag, and the records as well, are read
by name. -/
theorem Json.texts_read_back :
    RoundTrips ["error_type", "details"] ProcessError.toJson ProcessError.ofJson? ∧
      RoundTrips ["kind", "value"] ExitStatus.toJson ExitStatus.ofJson? ∧
      RoundTrips ["max_processes", "kernel_name"] Config.toJson Config.ofJson? ∧
      RoundTrips ["retval", "errno"] SyscallResult.toJson SyscallResult.ofJson? ∧
      ∀ status : WaitStatus, read? WaitStatus.ofJson? status.toJson.compress = some status :=
  ⟨ProcessError.readsFields.roundTrips, ExitStatus.readsFields.roundTrips,
    Config.readsFields.roundTrips, SyscallResult.readsFields.roundTrips,
    fun status => read?_compress (writable_int32 status.raw) status.ofJson?_toJson⟩

/-- The details come first, with their own fields turned round and another among them. -/
example : read? ProcessError.ofJson?
    "\x7b\"details\":\x7b\"caller\":4,\"at\":[1.5],\"pid\":7\x7d,\"error_type\":\"not_child\"\x7d" =
      some (.notChild 7 4) := by
  decide +kernel

end Lifecycle

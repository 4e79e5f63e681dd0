import JvmCalls.Output.Line
import JvmCalls.Proofs.Call.Filter
import JvmCalls.Proofs.ClassFile.Parsed
import JvmCalls.Proofs.Constant.Resolution
import Mathlib.Data.List.Forall2

/-!
# Exact extraction

The calls of a parsed class are its invocations, method by method and in the
order of their offsets, each with the method its constant pool index leads to.
Only the invocations of types the filter rejects are left out.  Extraction has
faults, but none of them occurs for a class that was parsed.
-/

namespace JvmCalls

/-- Whether the opcode calls a method that the constant pool names. -/
def Instruction.isMethodCall (instruction : Instruction) : Bool :=
  0xB6 ≤ instruction.opcode.byte && instruction.opcode.byte ≤ 0xB9

theorem Instruction.isMethodCall_iff {instruction : Instruction} :
    instruction.isMethodCall = true ↔
      ∃ kind, InvokeKind.ofByte? instruction.opcode.byte = some kind := by
  rw [isMethodCall, Bool.and_eq_true, decide_eq_true_eq, decide_eq_true_eq]
  constructor
  · rintro ⟨hlow, hhigh⟩
    have hbyte : instruction.opcode.byte = 0xB6 ∨ instruction.opcode.byte = 0xB7 ∨
        instruction.opcode.byte = 0xB8 ∨ instruction.opcode.byte = 0xB9 := by
      simp only [UInt8.le_iff_toNat_le, ← UInt8.toNat_inj, UInt8.reduceToNat] at hlow hhigh ⊢
      omega
    rcases hbyte with hbyte | hbyte | hbyte | hbyte
    · exact ⟨.virtual, InvokeKind.ofByte?_eq_some_iff.mpr hbyte.symm⟩
    · exact ⟨.special, InvokeKind.ofByte?_eq_some_iff.mpr hbyte.symm⟩
    · exact ⟨.static, InvokeKind.ofByte?_eq_some_iff.mpr hbyte.symm⟩
    · exact ⟨.interface, InvokeKind.ofByte?_eq_some_iff.mpr hbyte.symm⟩
  · rintro ⟨kind, hkind⟩
    rw [← InvokeKind.ofByte?_eq_some_iff.mp hkind]
    cases kind <;> decide

def Method.invocations (method : Method) : List (Method × Instruction) :=
  (method.instructions.filter Instruction.isMethodCall).map (fun instruction =>
    (method, instruction))

namespace ClassFile

def invocations (decoded : ClassFile) : List (Method × Instruction) :=
  decoded.methods.flatMap Method.invocations

/-- The edge is the call that an instruction of a method makes: it leads from
that method of the class to the method its constant pool index leads to. -/
structure Names (decoded : ClassFile) (site : Method × Instruction) (edge : CallEdge) :
    Prop where
  callerType : edge.callerType = decoded.name
  callerMethod : edge.callerMethod = site.1.name
  kind : edge.kind.byte = site.2.opcode.byte
  callee : ∃ index, site.2.operand.constantIndex? = some index ∧
    decoded.pool.NamesMethod index edge.calleeOwner edge.calleeMethod edge.calleeDescriptor

variable {decoded : ClassFile} {method : Method} {instruction : Instruction}
variable {edge : CallEdge} {filter : TypeFilter}

theorem Names.rightUnique : Relator.RightUnique decoded.Names := by
  intro site edge edge' hnames hnames'
  obtain ⟨index, hindex, hcallee⟩ := hnames.callee
  obtain ⟨index', hindex', hcallee'⟩ := hnames'.callee
  have hsame : index = index' := Option.some.inj (hindex.symm.trans hindex')
  subst hsame
  obtain ⟨howner, hmethod, hdescriptor⟩ := hcallee.unique hcallee'
  have hkind : some edge.kind = some edge'.kind := by
    rw [← InvokeKind.ofByte?_byte edge.kind, ← InvokeKind.ofByte?_byte edge'.kind,
      hnames.kind, hnames'.kind]
  apply CallEdge.ext
  · rw [hnames.callerType, hnames'.callerType]
  · rw [hnames.callerMethod, hnames'.callerMethod]
  · exact howner
  · exact hmethod
  · exact hdescriptor
  · exact Option.some.inj hkind

/-- Instructions with other opcodes give nothing. -/
theorem callAt_of_not_isMethodCall (hother : instruction.isMethodCall ≠ true) :
    decoded.callAt filter method instruction = .ok none := by
  have hkind : InvokeKind.ofByte? instruction.opcode.byte = none := by
    rw [Option.eq_none_iff_forall_not_mem]
    intro kind hkind
    exact hother (Instruction.isMethodCall_iff.mpr ⟨kind, hkind⟩)
  rw [callAt, CallSite.resolve, hkind]
  rfl

/-- An invocation is resolved to a call site of which the edge is made. -/
theorem resolve_of_names (hnames : decoded.Names (method, instruction) edge) :
    ∃ site, CallSite.resolve decoded.pool instruction = .ok (some site) ∧
      CallEdge.ofSite decoded.name method.name site = edge := by
  obtain ⟨index, hindex, hcallee⟩ := hnames.callee
  obtain ⟨isInterface, htarget⟩ := ConstantPool.namesMethod_iff.mp hcallee
  have hkind := InvokeKind.ofByte?_eq_some_iff.mpr hnames.kind
  simp only at hindex hkind
  refine ⟨{
    offset := instruction.offset
    kind := edge.kind
    owner := edge.calleeOwner
    name := edge.calleeMethod
    descriptor := edge.calleeDescriptor }, ?_, ?_⟩
  · simp only [CallSite.resolve, hkind, hindex, htarget]
    rfl
  · apply CallEdge.ext
    · exact hnames.callerType.symm
    · exact hnames.callerMethod.symm
    · rfl
    · rfl
    · rfl
    · rfl

/-- An invocation gives its call unless the filter excludes the called type. -/
theorem callAt_of_names (hnames : decoded.Names (method, instruction) edge) :
    decoded.callAt filter method instruction =
      .ok (if filter.includes (readableName edge.calleeOwner) then some edge else none) := by
  obtain ⟨site, hsite, rfl⟩ := resolve_of_names hnames
  rw [callAt, hsite, TypeFilter.includes]
  change (if filter.excludes (readableName site.owner) then _ else _) =
    Except.ok (if !filter.excludes (readableName site.owner) then _ else none)
  cases filter.excludes (readableName site.owner) with
  | true => rfl
  | false => rfl

/-- The calls of a method are its invocations without those that are filtered
out, by induction on its instructions. -/
theorem callsOf_of_names {edges : List CallEdge}
    (hnames : List.Forall₂ decoded.Names method.invocations edges) :
    decoded.callsOf filter method =
      .ok (edges.filter (fun edge => filter.includes (readableName edge.calleeOwner))) := by
  rw [Method.invocations, List.forall₂_map_left_iff] at hnames
  rw [callsOf]
  apply Outcome.map_eq_ok_iff.mpr
  generalize method.instructions = instructions at hnames ⊢
  induction instructions generalizing edges with
  | nil =>
      rw [List.filter_nil, List.forall₂_nil_left_iff] at hnames
      subst hnames
      exact ⟨[], rfl, rfl⟩
  | cons instruction instructions ih =>
      rw [List.mapM_cons]
      by_cases hcall : instruction.isMethodCall = true
      · rw [List.filter_cons_of_pos hcall] at hnames
        cases hnames with
        | cons hfirst hrest =>
            obtain ⟨found, hfound, hkept⟩ := ih hrest
            rw [callAt_of_names hfirst, hfound]
            refine ⟨_, rfl, ?_⟩
            rw [List.filter_cons, ← hkept]
            split
            · rfl
            · rfl
      · rw [List.filter_cons_of_neg hcall] at hnames
        obtain ⟨found, hfound, hkept⟩ := ih hnames
        rw [callAt_of_not_isMethodCall hcall, hfound]
        exact ⟨none :: found, rfl, hkept⟩

/-- The calls of a class are the calls of its methods one after another. -/
theorem calls_of_names {edges : List (List CallEdge)}
    (hnames : List.Forall₂ (fun method => List.Forall₂ decoded.Names method.invocations)
      decoded.methods edges) :
    decoded.calls filter = .ok (edges.flatten.filter (fun edge =>
      filter.includes (readableName edge.calleeOwner))) := by
  rw [calls, List.filter_flatten]
  apply Outcome.map_eq_ok_iff.mpr
  refine ⟨_, Outcome.mapM_eq_ok_of_forall₂ ?_, rfl⟩
  rw [List.forall₂_map_right_iff]
  exact hnames.imp (fun method edges hedges => callsOf_of_names hedges)

theorem mem_invocations {site : Method × Instruction} :
    site ∈ decoded.invocations ↔
      site.1 ∈ decoded.methods ∧ site.2 ∈ site.1.instructions ∧ site.2.isMethodCall = true := by
  obtain ⟨method, instruction⟩ := site
  simp only [invocations, Method.invocations, List.mem_flatMap, List.mem_map, List.mem_filter,
    Prod.mk.injEq]
  constructor
  · rintro ⟨found, hmethod, other, ⟨hinstruction, hcall⟩, rfl, rfl⟩
    exact ⟨hmethod, hinstruction, hcall⟩
  · rintro ⟨hmethod, hinstruction, hcall⟩
    exact ⟨method, hmethod, instruction, ⟨hinstruction, hcall⟩, rfl, rfl⟩

section Parse

variable {data : Bytes} {site : Method × Instruction}

/-- The constant pool index of an invocation leads to a method whose descriptor
has the right form. -/
theorem exists_callee_of_parse (hparsed : parse data = .ok decoded)
    (hsite : site ∈ decoded.invocations) :
    ∃ index owner name descriptor type, site.2.operand.constantIndex? = some index ∧
      decoded.pool.NamesMethod index owner name descriptor ∧
      MethodType.parse descriptor = .ok type := by
  obtain ⟨hmethod, hinstruction, hcall⟩ := mem_invocations.mp hsite
  obtain ⟨kind, hkind⟩ := Instruction.isMethodCall_iff.mp hcall
  obtain ⟨index, target, type, hindex, htarget, htype⟩ :=
    exists_target_of_parse hparsed hmethod hinstruction hkind
  exact ⟨index, target.owner, target.name, target.descriptor, type, hindex,
    ConstantPool.namesMethod_iff.mpr ⟨target.isInterface, htarget⟩, htype⟩

theorem exists_edge_of_parse (hparsed : parse data = .ok decoded)
    (hsite : site ∈ decoded.invocations) : ∃ edge, decoded.Names site edge := by
  obtain ⟨index, owner, name, descriptor, _, hindex, hcallee, _⟩ :=
    exists_callee_of_parse hparsed hsite
  obtain ⟨_, _, hcall⟩ := mem_invocations.mp hsite
  obtain ⟨kind, hkind⟩ := Instruction.isMethodCall_iff.mp hcall
  refine ⟨{
    callerType := decoded.name
    callerMethod := site.1.name
    calleeOwner := owner
    calleeMethod := name
    calleeDescriptor := descriptor
    kind := kind }, rfl, rfl, InvokeKind.ofByte?_eq_some_iff.mp hkind, index, hindex, hcallee⟩

theorem exists_type_of_parse (hparsed : parse data = .ok decoded)
    (hsite : site ∈ decoded.invocations) (hnames : decoded.Names site edge) :
    ∃ type, MethodType.parse edge.calleeDescriptor = .ok type := by
  obtain ⟨index, owner, name, descriptor, type, hindex, hcallee, htype⟩ :=
    exists_callee_of_parse hparsed hsite
  obtain ⟨index', hindex', hcallee'⟩ := hnames.callee
  have hsame : index = index' := Option.some.inj (hindex.symm.trans hindex')
  subst hsame
  obtain ⟨_, _, rfl⟩ := hcallee.unique hcallee'
  exact ⟨type, htype⟩

/-- The invocations of a parsed class are calls, and extraction finds them. -/
theorem exists_calls_of_parse (hparsed : parse data = .ok decoded) (filter : TypeFilter) :
    ∃ edges, List.Forall₂ decoded.Names decoded.invocations edges ∧
      decoded.calls filter = .ok (edges.filter (fun edge =>
        filter.includes (readableName edge.calleeOwner))) := by
  have hmethods : ∀ method ∈ decoded.methods,
      ∃ edges, List.Forall₂ decoded.Names method.invocations edges := by
    intro method hmethod
    apply Outcome.exists_forall₂
    intro site hsite
    exact exists_edge_of_parse hparsed (List.mem_flatMap_of_mem hmethod hsite)
  obtain ⟨edges, hedges⟩ := Outcome.exists_forall₂ hmethods
  refine ⟨edges.flatten, ?_, calls_of_names hedges⟩
  rw [invocations, List.flatMap_def]
  exact List.rel_flatten (List.forall₂_map_left_iff.mpr hedges)

/-- Extraction is exact.  The invocations of a parsed class, method by method
and in the order of their offsets, name one list of calls.  What is extracted
is this list without the calls to types whose readable name the filter
rejects. -/
theorem calls_exact_of_parse (hparsed : parse data = .ok decoded) (filter : TypeFilter) :
    (∀ method ∈ decoded.methods,
      method.instructions.Pairwise (fun left right => left.offset < right.offset)) ∧
    ∃ edges, (∀ named, List.Forall₂ decoded.Names decoded.invocations named ↔ named = edges) ∧
      decoded.calls filter =
        .ok (edges.filter (fun edge => ¬ filter.Rejects (readableName edge.calleeOwner))) := by
  refine ⟨fun method hmethod => pairwise_offset_lt_of_parse hparsed hmethod, ?_⟩
  obtain ⟨edges, hedges, hcalls⟩ := exists_calls_of_parse hparsed filter
  refine ⟨edges, fun named => ⟨fun hnamed => ?_, ?_⟩, ?_⟩
  · exact Names.rightUnique.forall₂ hnamed hedges
  · rintro rfl
    exact hedges
  · simp only [hcalls, TypeFilter.includes_eq_not_rejects]

theorem exists_parse_callingClass :
    ∃ decoded, parse callingClass = .ok decoded ∧ decoded.invocations.length = 2 := by
  have hcount : (fun decoded => decoded.invocations.length) <$> parse callingClass = .ok 2 := by
    decide +kernel
  exact Outcome.map_eq_ok_iff.mp hcount

theorem calls_exact_of_callingClass :
    ∃ decoded edges, parse callingClass = .ok decoded ∧ edges.length = 2 ∧
      List.Forall₂ decoded.Names decoded.invocations edges ∧
      decoded.calls .everything = .ok (edges.filter (fun edge =>
        ¬ TypeFilter.everything.Rejects (readableName edge.calleeOwner))) := by
  obtain ⟨decoded, hparsed, hlength⟩ := exists_parse_callingClass
  obtain ⟨_, edges, hnamed, hcalls⟩ := calls_exact_of_parse hparsed .everything
  have hedges := (hnamed edges).mpr rfl
  exact ⟨decoded, edges, hparsed, hedges.length_eq ▸ hlength, hedges, hcalls⟩

/-- A parsed class always extracts.  Each invocation has a constant pool index
that leads to a method with a descriptor of the right form, so that no call is
missing, every call is written as a line and no signature is given as it
stands. -/
theorem calls_total_of_parse (hparsed : parse data = .ok decoded) (filter : TypeFilter) :
    (∀ method ∈ decoded.methods, ∀ instruction ∈ method.instructions,
      0xB6 ≤ instruction.opcode.byte → instruction.opcode.byte ≤ 0xB9 →
        ∃ index owner name descriptor type,
          instruction.operand.constantIndex? = some index ∧
          decoded.pool.NamesMethod index owner name descriptor ∧
          MethodType.parse descriptor = .ok type) ∧
    ∃ edges, decoded.calls filter = .ok edges ∧
      (∀ style, decoded.lines filter style = .ok (edges.map (fun edge => edge.line style))) ∧
      ∀ edge ∈ edges, ∃ type, MethodType.parse edge.calleeDescriptor = .ok type ∧
        edge.calleeSignature .readable = type.render := by
  constructor
  · intro method hmethod instruction hinstruction hlow hhigh
    have hcall : instruction.isMethodCall = true := by
      simp [Instruction.isMethodCall, hlow, hhigh]
    have hsite : (method, instruction) ∈ decoded.invocations :=
      mem_invocations.mpr ⟨hmethod, hinstruction, hcall⟩
    exact exists_callee_of_parse hparsed hsite
  · obtain ⟨edges, hedges, hcalls⟩ := exists_calls_of_parse hparsed filter
    refine ⟨_, hcalls, ?_, ?_⟩
    · intro style
      rw [lines, hcalls]
      rfl
    · intro edge hkept
      have hedge : edge ∈ edges := List.mem_of_mem_filter hkept
      obtain ⟨site, hsite, hnames⟩ := Outcome.exists_of_mem_right hedges hedge
      obtain ⟨type, htype⟩ := exists_type_of_parse hparsed hsite hnames
      refine ⟨type, htype, ?_⟩
      simp only [CallEdge.calleeSignature, htype]

theorem calls_total_of_callingClass :
    ∃ decoded edges, parse callingClass = .ok decoded ∧ decoded.invocations.length = 2 ∧
      decoded.calls .everything = .ok edges ∧
      ∀ edge ∈ edges, ∃ type, MethodType.parse edge.calleeDescriptor = .ok type ∧
        edge.calleeSignature .readable = type.render := by
  obtain ⟨decoded, hparsed, hlength⟩ := exists_parse_callingClass
  obtain ⟨_, edges, hcalls, _, hsignatures⟩ := calls_total_of_parse hparsed .everything
  exact ⟨decoded, edges, hparsed, hlength, hcalls, hsignatures⟩

end Parse

end ClassFile

end JvmCalls

import JvmCalls.Proofs.ClassFile.Accounted

/-!
# Methods with and without a body

The flags of a method say whether it is declared without a body, and its attributes
whether it has one.  Reading a class goes by the attributes alone and keeps the flags as
they are, so that a method may be declared without a body and have one.  A method that
has none has no instructions and calls nothing.
-/

namespace JvmCalls

/-- Whether one of the attributes of the method is named as its body. -/
def MethodParts.CarriesBody (pool : ConstantPool) (parts : MethodParts) : Prop :=
  ∃ attr ∈ parts.attributes, attr.layout.IsBody pool

section Attributes

variable {pool : ConstantPool} {owner : String} {parts : MethodParts} {method : Method}

theorem isSome_iff_of_describesParts {attributes : List AttributeParts} {code : Option Code}
    (hdescribes : DescribesParts pool attributes code) :
    code.isSome = true ↔ ∃ attr ∈ attributes, attr.layout.IsBody pool := by
  cases code with
  | none =>
      constructor
      · intro hsome
        cases hsome
      · rintro ⟨attr, hattr, hbody⟩
        exact absurd hbody (hdescribes attr hattr).1
  | some code =>
      obtain ⟨before, attr, after, rfl, hbody, _⟩ := hdescribes
      constructor
      · intro _
        exact ⟨attr, List.mem_append_right before List.mem_cons_self, hbody.1⟩
      · intro _
        rfl

/-- The flags have no part in whether there is a body. -/
theorem MethodParts.Describes.isSome_code_iff
    (hdescribes : parts.Describes pool owner method) :
    method.code.isSome = true ↔ parts.CarriesBody pool :=
  isSome_iff_of_describesParts hdescribes.body

end Attributes

namespace ClassFile

variable {data : Bytes} {decoded : ClassFile} {method : Method}

/-- The class without its methods that have no body. -/
def withBodies (decoded : ClassFile) : ClassFile :=
  { decoded with methods := decoded.methods.filter (fun method => method.code.isSome) }

theorem instructions_of_code_eq_none (hnone : method.code = none) : method.instructions = [] := by
  rw [Method.instructions, hnone]

/-- A method without a body calls nothing, whatever the filter admits. -/
theorem callsOf_of_code_eq_none (hnone : method.code = none) (filter : TypeFilter) :
    decoded.callsOf filter method = .ok [] := by
  rw [callsOf, instructions_of_code_eq_none hnone]
  rfl

/-- The calls of a class are those of its methods with a body. -/
theorem calls_withBodies (decoded : ClassFile) (filter : TypeFilter) :
    decoded.withBodies.calls filter = decoded.calls filter := by
  rw [calls, calls, ← map_eq_pure_bind, ← map_eq_pure_bind]
  refine Outcome.flatten_mapM_filter (fun method _ hbody => callsOf_of_code_eq_none ?_ filter)
  exact Option.isNone_iff_eq_none.mp (Option.not_isSome _ ▸ congrArg not hbody)

/-- Which methods of a class that was parsed have a body.  The flags of a method are kept
as they stand, and the method has a body exactly if one of its attributes is named as one,
whatever the flags say.  A method without a body has no instructions, calls nothing under
any filter, and may be left out of the class without a change to its calls. -/
theorem bodies_follow_attributes (hparsed : parse data = .ok decoded) :
    ∃ parts : ClassParts, data = parts.encode ∧ parts.Fits ∧
      List.Forall₂ (fun part method => method.access.bits = part.access ∧
        (method.code.isSome = true ↔ part.CarriesBody parts.pool)) parts.methods decoded.methods ∧
      (∀ method ∈ decoded.methods, method.code = none →
        method.instructions = [] ∧ ∀ filter, decoded.callsOf filter method = .ok []) ∧
      ∀ filter, decoded.calls filter = decoded.withBodies.calls filter := by
  obtain ⟨parts, hdata, hfits, hdescribes, _⟩ := exists_parts_of_parse hparsed
  refine ⟨parts, hdata, hfits, ?_, ?_, ?_⟩
  · exact hdescribes.methods.imp (fun _ _ hmethod => ⟨hmethod.access, hmethod.isSome_code_iff⟩)
  · intro method _ hnone
    exact ⟨instructions_of_code_eq_none hnone, callsOf_of_code_eq_none hnone⟩
  · intro filter
    exact (calls_withBodies decoded filter).symm

/-- The bytes of `callingClass` with other flags for its method. -/
def declaredClass (access : UInt16) : Bytes :=
  callingClass.take 66 ++ Constant.encodeIndex access ++ callingClass.drop 68

/-- An abstract method is not refused its body: it is parsed with it and makes two
calls. -/
theorem parse_declaredClass_body :
    ∃ decoded method edges, parse (declaredClass 0x0401) = .ok decoded ∧
      decoded.methods = [method] ∧ method.access = ⟨0x0401⟩ ∧
      method.access.isBodyless = true ∧ method.code ≠ none ∧
      decoded.callsOf .everything method = .ok edges ∧ edges.length = 2 := by
  have hcounts : (fun decoded => decoded.methods.map (fun method =>
      (method.access, method.code.isSome,
        (decoded.callsOf .everything method).toOption.map List.length))) <$>
          parse (declaredClass 0x0401) = .ok [(⟨0x0401⟩, true, some 2)] := by
    decide +kernel
  obtain ⟨decoded, hparsed, hmethods⟩ := Outcome.map_eq_ok_iff.mp hcounts
  obtain ⟨method, hmethod, hfields⟩ := List.map_eq_singleton_iff.mp hmethods
  rw [Prod.mk.injEq, Prod.mk.injEq, Option.map_eq_some_iff] at hfields
  obtain ⟨haccess, hsome, edges, hedges, hlength⟩ := hfields
  refine ⟨decoded, method, edges, hparsed, hmethod, haccess, ?_, ?_, ?_, hlength⟩
  · rw [haccess]
    rfl
  · exact Option.isSome_iff_ne_none.mp hsome
  · cases hcalls : decoded.callsOf .everything method with
    | error fault => rw [hcalls] at hedges; cases hedges
    | ok calls => rw [hcalls] at hedges; cases hedges; rfl

theorem bodies_follow_attributes_declaredClass :
    ∃ decoded parts, parse (declaredClass 0x0401) = .ok decoded ∧
      declaredClass 0x0401 = ClassParts.encode parts ∧
      ∃ part ∈ parts.methods, part.access = 0x0401 ∧ part.CarriesBody parts.pool := by
  have hdeclared : (fun decoded => decoded.methods.map (fun method =>
      (method.access.bits, method.code.isSome))) <$> parse (declaredClass 0x0401) =
        .ok [(0x0401, true)] := by
    decide +kernel
  obtain ⟨decoded, hparsed, hmethods⟩ := Outcome.map_eq_ok_iff.mp hdeclared
  obtain ⟨method, hmethod, hfields⟩ := List.map_eq_singleton_iff.mp hmethods
  rw [Prod.mk.injEq] at hfields
  obtain ⟨parts, hdata, _, hpaired, _⟩ := bodies_follow_attributes hparsed
  rw [hmethod] at hpaired
  obtain ⟨part, rest, hpart, _, hparts⟩ := List.forall₂_cons_right_iff.mp hpaired
  refine ⟨decoded, parts, hparsed, hdata, part, ?_, ?_, ?_⟩
  · rw [hparts]
    exact List.mem_cons_self
  · exact hpart.1.symm.trans hfields.1
  · exact hpart.2.mp hfields.2

end ClassFile

end JvmCalls

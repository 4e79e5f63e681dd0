import JvmCalls.Call.Edge
import JvmCalls.Proofs.Outcome
import Mathlib.Algebra.GroupWithZero.Nat

/-!
# Lengths of rendered types

A type is rendered with at most eight characters for each character of its
descriptor: `boolean` and a comma stand for the single letter `Z`.  What a
reader of descriptors leaves unread makes up for the rest of the bound, so that
it adds up along a list of parameters.
-/

namespace JvmCalls

theorem length_binaryName (internal : String) : (binaryName internal).length = internal.length := by
  rw [binaryName, String.length_ofList, List.length_map, String.length_toList]

/-- A separator of one character is counted with each of the texts. -/
theorem length_intercalate_le (separator : String) (hseparator : separator.length = 1)
    (texts : List String) :
    (String.intercalate separator texts).length ≤ (texts.map (·.length + 1)).sum := by
  induction texts with
  | nil => simp
  | cons text texts ih =>
      cases texts with
      | nil => simp
      | cons next texts =>
          rw [String.intercalate_cons_cons, String.length_append, String.length_append, hseparator,
            List.map_cons, List.sum_cons]
          omega

namespace FieldType

variable {whole : String} {text rest : List Char} {type : FieldType}

theorem length_render_nest (levels : Nat) (type : FieldType) :
    (nest levels type).render.length = type.render.length + 2 * levels := by
  induction levels with
  | zero => rfl
  | succ levels ih =>
      rw [nest, render, String.length_append, ih]
      change _ + 2 = _
      omega

theorem length_render_of_parseClassName (hparsed : parseClassName whole text = .ok (type, rest)) :
    type.render.length + 1 + rest.length = text.length := by
  unfold parseClassName at hparsed
  split at hparsed
  · cases hparsed
  · next last behind hdrop =>
      simp only at hparsed
      split at hparsed
      · cases hparsed
      · cases hparsed
        have hsplit : text.takeWhile (· != ';') ++ last :: rest = text := by
          rw [← hdrop]
          exact List.takeWhile_append_dropWhile
        have hlength := congrArg List.length hsplit
        rw [List.length_append, List.length_cons] at hlength
        rw [render, length_binaryName, String.length_ofList]
        omega

theorem length_render_of_parseElement (hparsed : parseElement whole text = .ok (type, rest)) :
    type.render.length + 1 + 8 * rest.length ≤ 8 * text.length := by
  unfold parseElement at hparsed
  split at hparsed
  case h_1 => cases hparsed
  case h_10 behind =>
      have hname := length_render_of_parseClassName hparsed
      rw [List.length_cons]
      omega
  case h_11 => cases hparsed
  all_goals
    cases hparsed
    rw [List.length_cons, Nat.mul_succ, Nat.add_comm (8 * _)]
    exact Nat.add_le_add_right (by decide) _

theorem length_render_of_parseOne (hparsed : parseOne whole text = .ok (type, rest)) :
    type.render.length + 1 + 8 * rest.length ≤ 8 * text.length := by
  have hsplit : text.takeWhile (· == '[') ++ text.dropWhile (· == '[') = text :=
    List.takeWhile_append_dropWhile
  have hlength := congrArg List.length hsplit
  rw [List.length_append] at hlength
  unfold parseOne at hparsed
  simp only at hparsed
  split at hparsed
  · cases hparsed
  · split at hparsed
    · next element behind helement =>
        cases hparsed
        have hrest := length_render_of_parseElement helement
        rw [length_render_nest]
        omega
    · cases hparsed

end FieldType

namespace MethodType

variable {whole : String} {text rest : List Char}

theorem length_render_of_parseParameters {before parameters : List FieldType}
    (hparsed : parseParameters whole text before = .ok (parameters, rest)) :
    (parameters.map (·.render.length + 1)).sum + 8 * rest.length ≤
      (before.map (·.render.length + 1)).sum + 8 * text.length := by
  fun_induction parseParameters whole text before with
  | case1 before => cases hparsed
  | case2 before behind =>
      cases hparsed
      rw [List.map_reverse, List.sum_reverse, List.length_cons]
      omega
  | case3 before first behind hother type remaining htype ih =>
      have hfirst := FieldType.length_render_of_parseOne htype
      have hmore := ih hparsed
      rw [List.map_cons, List.sum_cons] at hmore
      omega
  | case4 before first behind hother defect htype => cases hparsed

theorem length_render_of_parseResult {result : Option FieldType}
    (hparsed : parseResult whole text = .ok (result, rest)) :
    (result.elim "void" FieldType.render).length + 1 + 8 * rest.length ≤ 8 * text.length := by
  unfold parseResult at hparsed
  split at hparsed
  · cases hparsed
    rw [List.length_cons, Nat.mul_succ, Nat.add_comm (8 * _)]
    exact Nat.add_le_add_right (by decide) _
  · split at hparsed
    · next type behind htype =>
        cases hparsed
        exact FieldType.length_render_of_parseOne htype
    · cases hparsed

/-- A method type is rendered with at most eight characters for each character
of its descriptor. -/
theorem length_render_le {descriptor : String} {type : MethodType}
    (hparsed : parse descriptor = .ok type) : type.render.length ≤ 8 * descriptor.length := by
  unfold parse at hparsed
  split at hparsed
  · next text htext =>
      obtain ⟨⟨parameters, behind⟩, hparameters, hbehind⟩ := Outcome.bind_eq_ok_iff.mp hparsed
      obtain ⟨⟨result, rest⟩, hresult, htype⟩ := Outcome.bind_eq_ok_iff.mp hbehind
      cases rest with
      | cons first rest => cases htype
      | nil =>
          cases htype
          have hlist := length_render_of_parseParameters hparameters
          have hlast := length_render_of_parseResult hresult
          have hjoined : (String.intercalate "," (parameters.map FieldType.render)).length ≤
              (parameters.map (·.render.length + 1)).sum := by
            have hcommas := length_intercalate_le "," rfl (parameters.map FieldType.render)
            rwa [List.map_map] at hcommas
          have hopen : "(".length = 1 := rfl
          have hclose : ")".length = 1 := rfl
          have hwhole : descriptor.length = text.length + 1 := by
            rw [← String.length_toList, htext, List.length_cons]
          rw [List.map_nil, List.sum_nil] at hlist
          cases result with
          | none =>
              simp only [render, Option.elim_none, String.length_append, hopen, hclose, hwhole]
                at hlast ⊢
              omega
          | some type =>
              simp only [render, Option.elim_some, String.length_append, hopen, hclose, hwhole]
                at hlast ⊢
              omega
  · cases hparsed

end MethodType

/-- A type name is rendered with at most eight characters for each of its own. -/
theorem length_readableName_le (internal : String) :
    (readableName internal).length ≤ 8 * internal.length := by
  have hplain : (binaryName internal).length ≤ 8 * internal.length := by
    rw [length_binaryName]
    omega
  unfold readableName
  split
  · split
    · next type hparsed =>
        unfold FieldType.parse at hparsed
        split at hparsed
        · next found hone =>
            cases hparsed
            have hlength := FieldType.length_render_of_parseOne hone
            rw [String.length_toList] at hlength
            omega
        · cases hparsed
        · cases hparsed
    · exact hplain
  · exact hplain

namespace CallEdge

theorem length_calleeType_le (edge : CallEdge) (style : SignatureStyle) :
    (edge.calleeType style).length ≤ 8 * edge.calleeOwner.length := by
  cases style with
  | readable => exact length_readableName_le _
  | descriptor =>
      rw [calleeType, length_binaryName]
      omega

theorem length_calleeSignature_le (edge : CallEdge) (style : SignatureStyle) :
    (edge.calleeSignature style).length ≤ 8 * edge.calleeDescriptor.length := by
  cases style with
  | readable =>
      simp only [calleeSignature]
      split
      · next type hparsed => exact MethodType.length_render_le hparsed
      · omega
  | descriptor =>
      rw [calleeSignature]
      omega

end CallEdge

end JvmCalls

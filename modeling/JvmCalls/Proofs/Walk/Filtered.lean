import JvmCalls.Proofs.Walk.Truncated

/-!
# Filtered lines

A filter tests the readable name of a called type, and a line has its name in the
style of the walk.  The two are the same name except for arrays by descriptors,
so a line tells of a type with a prefix of the filter, or of an array whose
readable name has one.
-/

namespace JvmCalls

/-- A readable name is the dotted name unless it is the one of an array. -/
theorem readableName_eq (internal : String) :
    readableName internal = binaryName internal ∨
      ∃ type, internal.toList.head? = some '[' ∧ FieldType.parse internal = .ok type ∧
        readableName internal = type.render := by
  rw [readableName]
  split
  · next hhead =>
      cases hparsed : FieldType.parse internal with
      | ok type => exact .inr ⟨type, hhead, rfl, rfl⟩
      | error defect => exact .inl rfl
  · exact .inl rfl

/-- The name in a line tells of a type with a prefix of the filter: the name has
one itself, or it is the dotted descriptor of the array that `owner` is, and the
readable name of that array has one. -/
def Admitted (filter : TypeFilter) (style : SignatureStyle) (owner name : String) : Prop :=
  filter.Covers name ∨
    style = .descriptor ∧ name = binaryName owner ∧
      ∃ type, owner.toList.head? = some '[' ∧ FieldType.parse owner = .ok type ∧
        filter.Covers type.render

theorem admitted_calleeType {filter : TypeFilter} {edge : CallEdge}
    (hcovers : filter.Covers (readableName edge.calleeOwner)) (style : SignatureStyle) :
    Admitted filter style edge.calleeOwner (edge.calleeType style) := by
  cases style with
  | readable => exact .inl hcovers
  | descriptor =>
      obtain hplain | ⟨type, hhead, hparsed, hreadable⟩ := readableName_eq edge.calleeOwner
      · rw [hplain] at hcovers
        exact .inl hcovers
      · exact .inr ⟨rfl, rfl, type, hhead, hparsed, hreadable ▸ hcovers⟩

theorem ClassFile.covers_of_mem_edges {data : Bytes} {decoded : ClassFile} {filter : TypeFilter}
    {edge : CallEdge} (hparsed : ClassFile.parse data = .ok decoded)
    (hprefixes : filter.prefixes ≠ []) (hedge : edge ∈ decoded.edges filter) :
    filter.Covers (readableName edge.calleeOwner) := by
  obtain ⟨named, _, hcalls⟩ := exists_calls_of_parse hparsed filter
  rw [edges, hcalls, List.mem_filter] at hedge
  exact TypeFilter.covers_of_includes hprefixes hedge.2

namespace Walker

variable {walker : Walker}

theorem covers_of_mem_callsOf {reads : List EntryRead} {edge : CallEdge}
    (hprefixes : walker.filter.prefixes ≠ [])
    (hedge : edge ∈ (walker.callsOf reads).flatMap Prod.snd) :
    walker.filter.Covers (readableName edge.calleeOwner) := by
  obtain ⟨call, hcall, hmem⟩ := List.mem_flatMap.mp hedge
  obtain ⟨read, _, hread⟩ := List.mem_filterMap.mp hcall
  match read with
  | .error fault => cases hread
  | .ok (.skipped name) => cases hread
  | .ok (.classFile name data) =>
      cases hparsed : ClassFile.parse data with
      | error fault =>
          simp only [callOf?, hparsed] at hread
          cases hread
      | ok decoded =>
          simp only [callOf?, hparsed] at hread
          cases hread
          exact ClassFile.covers_of_mem_edges hparsed hprefixes hmem

/-- The filter governs what is printed, in both ways to walk and for every archive,
policy and style.  A walk whose filter has prefixes writes one line for each edge
it hands on.  The third of its five fields starts with a prefix of the filter,
unless the line is by descriptors and the called type is an array: then it is the
dotted descriptor, and the readable name of the array starts with a prefix. -/
theorem lines_admitted (walker : Walker) (parallel : Bool) (style : SignatureStyle)
    (reads : List EntryRead) (hprefixes : walker.filter.prefixes ≠ []) :
    ∃ lines : List (List Char),
      (Outcome.final
        (walker.walk parallel (lineSink style) reads Device.unlimited)).HoldsLines lines ∧
      List.Forall₂ (fun edge line =>
        ∃ callerType callerMethod calleeType calleeMethod calleeSignature,
          Line.fields? line =
            some [callerType, callerMethod, calleeType, calleeMethod, calleeSignature] ∧
          Admitted walker.filter style edge.calleeOwner calleeType)
        ((walker.callsInto parallel reads (lineSink style) Device.unlimited).flatMap Prod.snd)
        lines := by
  refine ⟨_, walker.holdsLines_walk parallel reads style, ?_⟩
  have hcalls := walker.callsInto_of_fits parallel reads
    (writes_lineSink (Device.conduit none) style) id
  rw [show Device.unlimited = Device.ofCapacity none from rfl, hcalls,
    List.forall₂_map_right_iff, List.forall₂_same]
  intro edge hedge
  rw [allCalls_eq] at hedge
  exact ⟨_, _, _, _, _, edge.fields?_lineChars style,
    admitted_calleeType (covers_of_mem_callsOf hprefixes hedge) style⟩

/-- The bytes of a class `A` whose method `f` calls `clone` of an array of
`java.lang.Object`. -/
def cloningClass : Bytes :=
  [0xCA, 0xFE, 0xBA, 0xBE, 0, 0, 0, 52,
    0, 12, 1, 0, 1, 65, 7, 0, 1, 1, 0, 1, 102, 1, 0, 3, 40, 41, 86, 1, 0, 4, 67, 111, 100,
    101, 1, 0, 19, 91, 76, 106, 97, 118, 97, 47, 108, 97, 110, 103, 47, 79, 98, 106, 101,
    99, 116, 59, 7, 0, 6, 1, 0, 5, 99, 108, 111, 110, 101, 1, 0, 20, 40, 41, 76, 106, 97,
    118, 97, 47, 108, 97, 110, 103, 47, 79, 98, 106, 101, 99, 116, 59, 12, 0, 8, 0, 9, 10,
    0, 7, 0, 10,
    0, 33, 0, 2, 0, 0, 0, 0, 0, 0, 0, 1, 0, 1, 0, 3, 0, 4, 0, 1, 0, 5, 0, 0, 0, 16, 0, 1, 0,
    1, 0, 0, 0, 4, 0xB6, 0, 11, 0xB1, 0, 0, 0, 0, 0, 0]

def javaWalker : Walker := { filter := { prefixes := ["java"] }, policy := .abort }

theorem allCalls_cloningClass :
    javaWalker.allCalls [.ok (.classFile "A.class" cloningClass)] =
      [("A.class", [⟨"A", "f", "[Ljava/lang/Object;", "clone", "()Ljava/lang/Object;",
        .virtual⟩])] := by
  have hcalls : callsOfBytes { prefixes := ["java"] } cloningClass =
      .ok [⟨"A", "f", "[Ljava/lang/Object;", "clone", "()Ljava/lang/Object;", .virtual⟩] := by
    decide +kernel
  simp only [allCalls, course, javaWalker, hcalls]

theorem lines_admitted_cloningClass :
    javaWalker.filter.prefixes ≠ [] ∧
    ∃ lines : List (List Char),
      (Outcome.final (javaWalker.walk true (lineSink .readable)
        [.ok (.classFile "A.class" cloningClass)] Device.unlimited)).HoldsLines lines ∧
      lines.length = 1 ∧
      ∀ line ∈ lines, ∃ callerType callerMethod calleeType calleeMethod calleeSignature owner,
        Line.fields? line =
          some [callerType, callerMethod, calleeType, calleeMethod, calleeSignature] ∧
        Admitted javaWalker.filter .readable owner calleeType := by
  have hprefixes : javaWalker.filter.prefixes ≠ [] := by decide
  obtain ⟨lines, hlines, hadmitted⟩ := lines_admitted javaWalker true .readable
    [.ok (.classFile "A.class" cloningClass)] hprefixes
  have hwritten := (javaWalker.holdsLines_walk true
    [.ok (.classFile "A.class" cloningClass)] .readable).split?_text
  rw [hlines.split?_text, allCalls_cloningClass, Option.some_inj] at hwritten
  refine ⟨hprefixes, lines, hlines, congrArg List.length hwritten, fun line hline => ?_⟩
  obtain ⟨edge, _, _, _, _, _, _, hfields, hname⟩ := Outcome.exists_of_mem_right hadmitted hline
  exact ⟨_, _, _, _, _, edge.calleeOwner, hfields, hname⟩

/-- The third field of a line by descriptors need not start with a prefix: the
filter lets `java.lang.Object[]` through, and the line tells of its descriptor. -/
theorem not_covers_line_cloningClass :
    Line.readAll (Outcome.final (javaWalker.walk false (lineSink .descriptor)
        [.ok (.classFile "A.class" cloningClass)] Device.unlimited)).text =
      some [["A", "f", "[Ljava.lang.Object;", "clone", "()Ljava/lang/Object;"]] ∧
    ¬ javaWalker.filter.Covers "[Ljava.lang.Object;" := by
  refine ⟨?_, by decide⟩
  have hread : ∀ edges : List CallEdge,
      (edges.map (fun edge => edge.lineChars .descriptor)).mapM Line.fields? =
        some (edges.map (fun edge => edge.fields .descriptor)) := fun edges =>
    Outcome.mapM_map_eq_some (fun edge => edge.fields?_lineChars .descriptor)
  rw [Line.readAll, (javaWalker.holdsLines_walk false _ .descriptor).split?_text,
    allCalls_cloningClass]
  exact (hread _).trans (by decide)

end Walker

end JvmCalls

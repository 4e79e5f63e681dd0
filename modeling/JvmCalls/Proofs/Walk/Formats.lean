import JvmCalls.Proofs.Output.Record
import JvmCalls.Proofs.Walk.Truncated

/-!
# Lines and records of a walk

A walk into a sink of lines and a walk into a sink of records make the same calls
and end alike.  They write one line and one record for each invocation that the
filter keeps, in the order of the invocations, and the two are read back as the
same names and signatures.
-/

namespace JvmCalls

namespace ClassFile

/-- The invocations of a class that are calls to types the filter lets through. -/
def keptInvocations (decoded : ClassFile) (filter : TypeFilter) : List (Method × Instruction) :=
  decoded.invocations.filter (fun site =>
    match decoded.callAt filter site.1 site.2 with
    | .ok (some _) => true
    | _ => false)

/-- The calls of a parsed class are those of the invocations that are kept. -/
theorem forall₂_names_keptInvocations {data : Bytes} {decoded : ClassFile}
    (hparsed : parse data = .ok decoded) (filter : TypeFilter) :
    List.Forall₂ decoded.Names (decoded.keptInvocations filter) (decoded.edges filter) := by
  obtain ⟨named, hnames, hcalls⟩ := exists_calls_of_parse hparsed filter
  rw [edges, hcalls]
  refine List.rel_filter ?_ hnames
  rintro ⟨method, instruction⟩ edge hedge
  simp only [callAt_of_names hedge]
  by_cases hkept : filter.includes (readableName edge.calleeOwner) = true <;> simp [hkept]

end ClassFile

namespace Walker

def invocationsAt (walker : Walker) : EntryRead → List (Method × Instruction)
  | .ok (.classFile _ data) =>
      match ClassFile.parse data with
      | .ok decoded => decoded.keptInvocations walker.filter
      | .error _ => []
  | _ => []

/-- The invocations whose calls a walk hands on: those of the entries before the
one that ends it. -/
def keptInvocations (walker : Walker) (reads : List EntryRead) : List (Method × Instruction) :=
  (reads.takeWhile walker.passes).flatMap walker.invocationsAt

def SameKind (site : Method × Instruction) (edge : CallEdge) : Prop :=
  edge.kind.byte = site.2.opcode.byte

theorem forall₂_sameKind_invocationsAt (walker : Walker) (read : EntryRead) :
    List.Forall₂ SameKind (walker.invocationsAt read)
      ((walker.callsOf [read]).flatMap Prod.snd) := by
  match read with
  | .error fault => exact .nil
  | .ok (.skipped name) => exact .nil
  | .ok (.classFile name data) =>
      cases hparsed : ClassFile.parse data with
      | error fault =>
          simp only [invocationsAt, hparsed, callsOf_rejected walker hparsed]
          exact .nil
      | ok decoded =>
          simp only [invocationsAt, hparsed, callsOf_parsed walker hparsed, List.flatMap_cons,
            List.flatMap_nil, List.append_nil]
          exact (ClassFile.forall₂_names_keptInvocations hparsed walker.filter).imp
            (fun _ _ hnames => hnames.kind)

/-- The calls of a walk are those of the invocations that are kept. -/
theorem forall₂_sameKind_allCalls (walker : Walker) (reads : List EntryRead) :
    List.Forall₂ SameKind (walker.keptInvocations reads)
      ((walker.allCalls reads).flatMap Prod.snd) := by
  rw [allCalls_eq, keptInvocations]
  induction reads.takeWhile walker.passes with
  | nil => exact .nil
  | cons read reads ih =>
      rw [List.flatMap_cons, callsOf_cons, List.flatMap_append]
      exact List.rel_append (walker.forall₂_sameKind_invocationsAt read) ih

end Walker

/-- A line and a record tell of the same call, and the record tells the kind of
the invocation. -/
def SameCall (site : Method × Instruction) (line record : List Char) : Prop :=
  ∃ callerType callerMethod calleeType calleeMethod calleeSignature kind,
    Line.fields? line =
      some [callerType, callerMethod, calleeType, calleeMethod, calleeSignature] ∧
    Json.readObject record =
      some [("caller_type", callerType), ("caller_method", callerMethod),
        ("callee_type", calleeType), ("callee_method", calleeMethod),
        ("callee_signature", calleeSignature), ("kind", InvokeKind.name kind)] ∧
    kind.byte = site.2.opcode.byte

theorem sameCall_of_sameKind {site : Method × Instruction} {edge : CallEdge}
    (hkind : Walker.SameKind site edge) (style : SignatureStyle) :
    SameCall site (edge.lineChars style) (edge.recordChars style) :=
  ⟨_, _, _, _, _, edge.kind, edge.fields?_lineChars style,
    edge.readObject_recordChars style, hkind⟩

namespace Walker

theorem writes_recordSink {State : Type} [Output State] {capacity : Option Nat}
    (conduit : Conduit State capacity) (style : SignatureStyle) :
    (recordSink style).Writes conduit (CallEdge.recordBytes style) :=
  CallEdge.puts_recordSink style

/-- A walk into a device without a bound leaves the records of all calls. -/
theorem holdsLines_walk_records (walker : Walker) (parallel : Bool) (style : SignatureStyle)
    (reads : List EntryRead) :
    (Outcome.final (walker.walk parallel (recordSink style) reads Device.unlimited)).HoldsLines
      (((walker.allCalls reads).flatMap Prod.snd).map (fun edge => edge.recordChars style)) := by
  have hwalk := walker.walk_of_fits parallel reads
    (writes_recordSink (Device.conduit none) style) id
  apply CallEdge.holdsLines_of_bytes_eq_records
  calc
    _ = SinkCall.bytesOf (CallEdge.recordBytes style) (walker.allCalls reads) := hwalk.bytes_eq
    _ = Utf8.encode (CallEdge.recordsOf ((walker.allCalls reads).flatMap Prod.snd) style) :=
      (CallEdge.encode_recordsOf _ style).symm

/-- Lines and records tell of the same calls, in both ways to walk and for every
archive, filter, policy and style.  A walk into a sink of lines and one into a
sink of records, each with a device without a bound behind it, end with the same
counts or the same fault.  Their bytes are lines and records, each ended by a
line break that occurs nowhere else, and there is one line and one record for
each invocation the filter keeps.  Read back, the record holds the five fields
of the line in their order, and behind them the kind of the invocation. -/
theorem lines_agree_with_records (walker : Walker) (parallel : Bool)
    (style : SignatureStyle) (reads : List EntryRead) :
    let inLines := walker.walk parallel (lineSink style) reads Device.unlimited
    let inRecords := walker.walk parallel (recordSink style) reads Device.unlimited
    let sites := walker.keptInvocations reads
    Outcome.verdict inRecords = Outcome.verdict inLines ∧
    ∃ lines records : List (List Char),
      (Outcome.final inLines).HoldsLines lines ∧ (Outcome.final inRecords).HoldsLines records ∧
      lines.length = sites.length ∧ records.length = sites.length ∧
      List.Forall₂ (fun site written => SameCall site written.1 written.2) sites
        (lines.zip records) := by
  intro inLines inRecords sites
  have hkinds := walker.forall₂_sameKind_allCalls reads
  have hlines := walker.walk_of_fits parallel reads (writes_lineSink (Device.conduit none) style) id
  have hrecords := walker.walk_of_fits parallel reads
    (writes_recordSink (Device.conduit none) style) id
  refine ⟨hrecords.verdict.trans hlines.verdict.symm, _, _,
    walker.holdsLines_walk parallel reads style,
    walker.holdsLines_walk_records parallel style reads, ?_, ?_, ?_⟩
  · rw [List.length_map, hkinds.length_eq]
  · rw [List.length_map, hkinds.length_eq]
  · rw [List.zip_map', List.forall₂_map_right_iff]
    refine hkinds.imp (fun site edge hkind => ?_)
    dsimp only
    exact sameCall_of_sameKind hkind style

end Walker

end JvmCalls

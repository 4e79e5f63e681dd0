import JvmCalls.Proofs.Output.Delivery
import JvmCalls.Proofs.Output.Line
import JvmCalls.Proofs.Text.Utf8
import JvmCalls.Walk.Sinks

/-!
# Written edge lines

Edges are written to a device one after another, each as its line and a line
break.  The bytes on a device without a bound are those of one text, which is
read back as the rendered fields of all edges, so that edges whose lines are
the same have the same fields.
-/

namespace JvmCalls

theorem Conduit.puts_writePieces {State : Type} [Output State] {capacity : Option Nat}
    {conduit : Conduit State capacity} (pieces : List String) :
    conduit.Puts (writePieces pieces) (pieces.flatMap Utf8.encode) :=
  puts_forM (fun piece => puts_write (Utf8.encode piece))

/-- On a device without a bound the writer succeeds and adds the bytes. -/
def Device.Takes (writer : EStateM OutputFault Device Unit) (bytes : Bytes) : Prop :=
  ∀ device : Device, device.capacity = none →
    ∃ next, writer device = .ok () next ∧ next.capacity = none ∧
      next.bytes = device.bytes ++ bytes

theorem Device.takes_of_puts {writer : EStateM OutputFault Device Unit} {bytes : Bytes}
    (hputs : (conduit none).Puts writer bytes) : Takes writer bytes := by
  intro device hcapacity
  have hwritten := hputs (show Holds none device device.bytes from ⟨hcapacity, rfl, id⟩)
  generalize writer device = result at hwritten
  cases hwritten with
  | ok hholds => exact ⟨_, rfl, hholds.1, hholds.2.1⟩
  | refused hexceeds => exact absurd hexceeds id

/-- The bytes of a device are lines, each ended by a line break that occurs nowhere
else. -/
structure Device.HoldsLines (device : Device) (lines : List (List Char)) : Prop where
  bytes_eq : device.bytes =
    Utf8.encode (String.ofList (lines.flatMap (· ++ [Line.terminator])))
  unbroken : ∀ line ∈ lines, Line.terminator ∉ line

/-- The bytes of a device tell its lines. -/
theorem Device.HoldsLines.split?_text {device : Device} {lines : List (List Char)}
    (hholds : device.HoldsLines lines) : Line.split? device.text = some lines := by
  rw [Device.text, hholds.bytes_eq, Utf8.decode_encode, Line.split?_lines hholds.unbroken]

namespace CallEdge

def lineChars (edge : CallEdge) (style : SignatureStyle) : List Char :=
  (edge.line style).toList

def textOf (edges : List CallEdge) (style : SignatureStyle) : String :=
  String.ofList ((edges.map (fun edge => edge.lineChars style)).flatMap (· ++ [Line.terminator]))

def lineBytes (style : SignatureStyle) (edge : CallEdge) : Bytes :=
  [edge.line style, Line.terminator.toString].flatMap Utf8.encode

theorem encode_textOf (edges : List CallEdge) (style : SignatureStyle) :
    Utf8.encode (textOf edges style) = edges.flatMap (lineBytes style) := by
  simp only [textOf, Utf8.encode, String.toList_ofList, List.flatMap_map, List.flatMap_assoc,
    List.flatMap_append, lineChars]
  rfl

/-- A sink that writes lines writes those of the edges one after another. -/
theorem puts_lineSink {State : Type} [Output State] {capacity : Option Nat}
    {conduit : Conduit State capacity} (style : SignatureStyle) (entry : String)
    (edges : List CallEdge) :
    conduit.Puts (lineSink style entry edges) (edges.flatMap (lineBytes style)) :=
  Conduit.puts_forM (fun _ => Conduit.puts_writePieces _)

theorem takes_lineSink (style : SignatureStyle) (entry : String) (edges : List CallEdge) :
    Device.Takes (lineSink style entry edges) (Utf8.encode (textOf edges style)) := by
  rw [encode_textOf]
  exact Device.takes_of_puts (puts_lineSink style entry edges)

theorem terminator_not_mem_lineChars (edge : CallEdge) (style : SignatureStyle) :
    Line.terminator ∉ edge.lineChars style :=
  Line.terminator_not_mem_ofFields _

theorem holdsLines_of_bytes_eq {device : Device} {edges : List CallEdge} {style : SignatureStyle}
    (hbytes : device.bytes = Utf8.encode (textOf edges style)) :
    device.HoldsLines (edges.map (fun edge => edge.lineChars style)) := by
  refine ⟨hbytes, ?_⟩
  rw [List.forall_mem_map]
  exact fun edge _ => edge.terminator_not_mem_lineChars style

theorem fields?_lineChars (edge : CallEdge) (style : SignatureStyle) :
    Line.fields? (edge.lineChars style) = some (edge.fields style) :=
  Line.fields?_ofFields (List.cons_ne_nil _ _)

theorem readAll_textOf (edges : List CallEdge) (style : SignatureStyle) :
    Line.readAll (textOf edges style) = some (edges.map (fun edge => edge.fields style)) := by
  have hlines : ∀ line ∈ edges.map (fun edge => edge.lineChars style), Line.terminator ∉ line := by
    rw [List.forall_mem_map]
    exact fun edge _ => edge.terminator_not_mem_lineChars style
  rw [Line.readAll, textOf, Line.split?_lines hlines]
  exact Outcome.mapM_map_eq_some (fun edge => edge.fields?_lineChars style)

/-- A line splits into five fields, of which each is read back. -/
theorem unescape_splitOn_lineChars (edge : CallEdge) (style : SignatureStyle) :
    ((edge.lineChars style).splitOn Line.separator).map
        (fun field => Field.unescape (String.ofList field)) =
      [some edge.callerType, some edge.callerMethod, some (edge.calleeType style),
        some edge.calleeMethod, some (edge.calleeSignature style)] := by
  have hfields : edge.fields style ≠ [] := List.cons_ne_nil _ _
  rw [lineChars, line, Line.splitOn_ofFields hfields, List.map_map]
  simp only [fields, List.map_cons, List.map_nil, Function.comp_apply, Line.unescape_escaped]

/-- The text of edge lines is unambiguous.  It is one line for each edge, ended
by a line break that occurs nowhere else.  Each line splits at its separators
into five fields, which stand for the rendered fields of the edge, and reading
all lines gives the rendered fields of all edges back.  So edges that are
written as the same bytes have the same rendered fields, in whichever styles
they were written. -/
theorem written_lines_read_back (style : SignatureStyle) (entry : String)
    (edges : List CallEdge) :
    ∃ device, lineSink style entry edges Device.unlimited = .ok () device ∧
      (∃ lines : List (List Char),
        device.text.toList = lines.flatMap (· ++ [Line.terminator]) ∧
        List.Forall₂ (fun edge line => Line.terminator ∉ line ∧
          (line.splitOn Line.separator).map (fun field => Field.unescape (String.ofList field)) =
            [some edge.callerType, some edge.callerMethod, some (edge.calleeType style),
              some edge.calleeMethod, some (edge.calleeSignature style)]) edges lines) ∧
      Line.readAll device.text = some (edges.map (fun edge => edge.fields style)) ∧
      ∀ style' entry' edges' device',
        lineSink style' entry' edges' Device.unlimited = .ok () device' →
        device'.bytes = device.bytes →
        edges'.map (fun edge => edge.fields style') =
          edges.map (fun edge => edge.fields style) := by
  have hwritten : ∀ style entry edges, ∃ device,
      lineSink style entry edges Device.unlimited = .ok () device ∧
        device.bytes = Utf8.encode (textOf edges style) := by
    intro style entry edges
    obtain ⟨device, hdevice, _, hbytes⟩ := takes_lineSink style entry edges Device.unlimited rfl
    exact ⟨device, hdevice, hbytes⟩
  obtain ⟨device, hdevice, hbytes⟩ := hwritten style entry edges
  have htext : device.text = textOf edges style := by
    rw [Device.text, hbytes, Utf8.decode_encode]
  refine ⟨device, hdevice, ?_, ?_, ?_⟩
  · refine ⟨edges.map (fun edge => edge.lineChars style), ?_, ?_⟩
    · rw [htext, textOf, String.toList_ofList]
    · rw [List.forall₂_map_right_iff, List.forall₂_same]
      exact fun edge _ =>
        ⟨edge.terminator_not_mem_lineChars style, edge.unescape_splitOn_lineChars style⟩
  · rw [htext, readAll_textOf]
  · intro style' entry' edges' device' hdevice' hsame
    obtain ⟨other, hother, hbytes'⟩ := hwritten style' entry' edges'
    rw [hother] at hdevice'
    cases hdevice'
    have htexts : textOf edges' style' = textOf edges style := by
      rw [← Utf8.decode_encode (textOf edges' style'), ← hbytes', hsame, hbytes,
        Utf8.decode_encode]
    have hread := readAll_textOf edges' style'
    rw [htexts, readAll_textOf] at hread
    exact (Option.some.inj hread).symm

end CallEdge

end JvmCalls

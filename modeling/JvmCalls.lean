import JvmCalls.Assembler.Body
import JvmCalls.Assembler.Class
import JvmCalls.Assembler.Pool
import JvmCalls.Bytes.BigEndian
import JvmCalls.Bytes.Cursor
import JvmCalls.Bytes.Progress
import JvmCalls.Bytes.Scalar
import JvmCalls.Bytes.Source
import JvmCalls.Call.Edge
import JvmCalls.Call.Extraction
import JvmCalls.Call.Filter
import JvmCalls.Call.Site
import JvmCalls.ClassFile.Access
import JvmCalls.ClassFile.Basic
import JvmCalls.ClassFile.Code
import JvmCalls.ClassFile.Layout
import JvmCalls.ClassFile.Method
import JvmCalls.Command.Arguments
import JvmCalls.Command.Run
import JvmCalls.Constant.Basic
import JvmCalls.Constant.Pool
import JvmCalls.Constant.Tag
import JvmCalls.Descriptor.FieldType
import JvmCalls.Descriptor.MethodType
import JvmCalls.Fault
import JvmCalls.Instruction.Basic
import JvmCalls.Instruction.Decode
import JvmCalls.Instruction.InvokeKind
import JvmCalls.Instruction.Layout
import JvmCalls.Instruction.Opcode
import JvmCalls.Main
import JvmCalls.Output.Buffered
import JvmCalls.Output.Device
import JvmCalls.Output.Json
import JvmCalls.Output.Line
import JvmCalls.Text.CodePage437
import JvmCalls.Text.Hexadecimal
import JvmCalls.Text.ModifiedUtf8
import JvmCalls.Text.Utf16
import JvmCalls.Text.Utf8
import JvmCalls.Walk.Basic
import JvmCalls.Walk.Chunked
import JvmCalls.Walk.Sinks
import JvmCalls.Zip.Archive
import JvmCalls.Zip.BitReader
import JvmCalls.Zip.Crc32
import JvmCalls.Zip.Directory
import JvmCalls.Zip.ExtraField
import JvmCalls.Zip.Field
import JvmCalls.Zip.Huffman
import JvmCalls.Zip.Inflate
import JvmCalls.Zip.Record
import JvmCalls.Proofs.Assembler.Body
import JvmCalls.Proofs.Assembler.Class
import JvmCalls.Proofs.Assembler.Demands
import JvmCalls.Proofs.Assembler.Interning
import JvmCalls.Proofs.Assembler.Pool
import JvmCalls.Proofs.Assembler.Step
import JvmCalls.Proofs.Bytes.Accepts
import JvmCalls.Proofs.Bytes.Ensures
import JvmCalls.Proofs.Bytes.Local
import JvmCalls.Proofs.Bytes.Moves
import JvmCalls.Proofs.Bytes.Spans
import JvmCalls.Proofs.Call.Extraction
import JvmCalls.Proofs.Call.Filter
import JvmCalls.Proofs.Call.Prefixes
import JvmCalls.Proofs.ClassFile.Accounted
import JvmCalls.Proofs.ClassFile.Bodies
import JvmCalls.Proofs.ClassFile.Described
import JvmCalls.Proofs.ClassFile.Length
import JvmCalls.Proofs.ClassFile.Parsed
import JvmCalls.Proofs.ClassFile.Parts
import JvmCalls.Proofs.ClassFile.RoundTrip
import JvmCalls.Proofs.ClassFile.Truncation
import JvmCalls.Proofs.Command.GivenUp
import JvmCalls.Proofs.Command.Run
import JvmCalls.Proofs.Constant.Resolution
import JvmCalls.Proofs.Constant.RoundTrip
import JvmCalls.Proofs.Constant.Shape
import JvmCalls.Proofs.Constant.Slots
import JvmCalls.Proofs.Constant.Stored
import JvmCalls.Proofs.Descriptor.Grammar
import JvmCalls.Proofs.Descriptor.Length
import JvmCalls.Proofs.Descriptor.Reading
import JvmCalls.Proofs.Instruction.Joined
import JvmCalls.Proofs.Instruction.JumpTable
import JvmCalls.Proofs.Instruction.Operand
import JvmCalls.Proofs.Instruction.Passes
import JvmCalls.Proofs.Instruction.Rebuild
import JvmCalls.Proofs.Instruction.RoundTrip
import JvmCalls.Proofs.Instruction.Stream
import JvmCalls.Proofs.Instruction.Truncation
import JvmCalls.Proofs.Outcome
import JvmCalls.Proofs.Output.Buffered
import JvmCalls.Proofs.Output.Delivery
import JvmCalls.Proofs.Output.Line
import JvmCalls.Proofs.Output.Record
import JvmCalls.Proofs.Output.Written
import JvmCalls.Proofs.Text.ModifiedUtf8
import JvmCalls.Proofs.Text.Sequences
import JvmCalls.Proofs.Text.Units
import JvmCalls.Proofs.Text.Utf8
import JvmCalls.Proofs.Trapping.Booking
import JvmCalls.Proofs.Trapping.ClassFile
import JvmCalls.Proofs.Trapping.Constant
import JvmCalls.Proofs.Trapping.Descriptor
import JvmCalls.Proofs.Trapping.Instruction
import JvmCalls.Proofs.Trapping.Lines
import JvmCalls.Proofs.Trapping.Operations
import JvmCalls.Proofs.Trapping.Partial
import JvmCalls.Proofs.Trapping.Reader
import JvmCalls.Proofs.Trapping.Reserved
import JvmCalls.Proofs.Trapping.Substring
import JvmCalls.Proofs.Trapping.Text
import JvmCalls.Proofs.Walk.Chunked
import JvmCalls.Proofs.Walk.Contract
import JvmCalls.Proofs.Walk.Counts
import JvmCalls.Proofs.Walk.Course
import JvmCalls.Proofs.Walk.Filtered
import JvmCalls.Proofs.Walk.Formats
import JvmCalls.Proofs.Walk.Lookahead
import JvmCalls.Proofs.Walk.Loop
import JvmCalls.Proofs.Walk.Recorded
import JvmCalls.Proofs.Walk.Truncated
import JvmCalls.Proofs.Walk.Unreadable
import JvmCalls.Proofs.Zip.Entry

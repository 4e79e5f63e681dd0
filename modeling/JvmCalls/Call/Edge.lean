import JvmCalls.Call.Site

/-!
# Call edges

An edge leads from a method to a method it calls.  The called type and the
signature are kept as the constant pool has them and rendered in one of two
styles.
-/

namespace JvmCalls

/-- How called types and signatures are rendered. -/
inductive SignatureStyle
  | readable
  | descriptor
  deriving DecidableEq, Repr

@[ext]
structure CallEdge where
  callerType : String
  callerMethod : String
  calleeOwner : String
  calleeMethod : String
  calleeDescriptor : String
  kind : InvokeKind
  deriving DecidableEq, Repr

namespace CallEdge

/-- The edge from a caller to the method a call site names. -/
def ofSite (callerType callerMethod : String) (site : CallSite) : CallEdge where
  callerType := callerType
  callerMethod := callerMethod
  calleeOwner := site.owner
  calleeMethod := site.name
  calleeDescriptor := site.descriptor
  kind := site.kind

def calleeType (edge : CallEdge) : SignatureStyle → String
  | .readable => readableName edge.calleeOwner
  | .descriptor => binaryName edge.calleeOwner

/-- The called signature.  A descriptor that is none is given as it stands. -/
def calleeSignature (edge : CallEdge) : SignatureStyle → String
  | .readable =>
      match MethodType.parse edge.calleeDescriptor with
      | .ok type => type.render
      | .error _ => edge.calleeDescriptor
  | .descriptor => edge.calleeDescriptor

def fields (edge : CallEdge) (style : SignatureStyle) : List String :=
  [edge.callerType, edge.callerMethod, edge.calleeType style, edge.calleeMethod,
    edge.calleeSignature style]

end CallEdge

end JvmCalls

/-!
# Type filters

A filter is a list of name prefixes.  It lets a type through if one of them is
a literal start of its name; without any prefix it lets every type through.
-/

namespace JvmCalls

/-- The prefixes a type name may start with. -/
structure TypeFilter where
  prefixes : List String
  deriving DecidableEq, Repr

namespace TypeFilter

def everything : TypeFilter := { prefixes := [] }

def separator : Char := ','

/-- The prefixes of a written list.  Empty prefixes at the end of a list of
several are dropped, all others are kept as they stand. -/
def parsePrefixes (list : String) : List String :=
  let text := list.toList
  if text.contains separator then
    let segments := text.splitOn separator
    (segments.reverse.dropWhile List.isEmpty).reverse.map String.ofList
  else
    [list]

/-- The filter of a written list. -/
def ofList (list : String) : TypeFilter := { prefixes := parsePrefixes list }

/-- The filter with the prefixes of a written list added at the end. -/
def extend (filter : TypeFilter) (list : String) : TypeFilter :=
  { prefixes := filter.prefixes ++ parsePrefixes list }

def isEmpty (filter : TypeFilter) : Bool := filter.prefixes.isEmpty

/-- Whether the filter keeps the type of the given name out. -/
def excludes (filter : TypeFilter) (name : String) : Bool :=
  !filter.isEmpty &&
    filter.prefixes.all (fun start => !start.toList.isPrefixOf name.toList)

def includes (filter : TypeFilter) (name : String) : Bool := !filter.excludes name

end TypeFilter

end JvmCalls

import JvmCalls.Assembler.Class
import JvmCalls.Proofs.Assembler.Pool
import Mathlib.Data.List.Nodup

/-!
# Interning

The constants of a class under assembly as they are kept: their stored forms one after
another, a table from stored forms to indices, and the next index.  Whatever is asked for
in whatever order, the three agree with the list of constants that `Pool` collects, a
request that is made again changes nothing, and the bytes are read back as a pool in
which every index means what it was asked for.
-/

namespace JvmCalls

open BigEndian

/-- Constants that can be stored differ in their stored forms. -/
theorem Constant.encode_injective {first second : Constant} (hfirst : first.Fits)
    (hsecond : second.Fits) (hencode : first.encode = second.encode) : first = second := by
  obtain ⟨next, hspans⟩ := Cursor.exists_spans_start first.encode
  have hsame : (Cursor.start first.encode).Spans second.encode next := by rwa [← hencode]
  have hread := (accepts_decode 0 hfirst hspans).symm.trans (accepts_decode 0 hsecond hsame)
  exact (EStateM.Result.ok.inj hread).1

/-- The first constant with a stored form is the first one that equals it. -/
theorem Constant.idxOf?_encode {constants : List Constant}
    (hconstants : ∀ constant ∈ constants, constant.Fits) {sought : Constant}
    (hsought : sought.Fits) :
    (constants.map encode).idxOf? sought.encode = constants.idxOf? sought := by
  induction constants with
  | nil => rfl
  | cons first rest ih =>
      rw [List.forall_mem_cons] at hconstants
      have hsame : (first.encode == sought.encode) = (first == sought) := by
        rw [Bool.eq_iff_iff, beq_iff_eq, beq_iff_eq]
        exact ⟨encode_injective hconstants.1 hsought, congrArg encode⟩
      rw [List.map_cons, List.idxOf?_cons, List.idxOf?_cons, hsame, ih hconstants.2]

/-- An item at the end is found if none before it is. -/
theorem idxOf?_concat {Item : Type} [BEq Item] (items : List Item) (last sought : Item) :
    (items ++ [last]).idxOf? sought =
      (items.idxOf? sought).or (if last == sought then some items.length else none) := by
  change (items ++ [last]).findIdx? (· == sought) = (items.findIdx? (· == sought)).or _
  rw [List.findIdx?_append]
  congr 1
  cases hlast : last == sought <;> simp [List.findIdx?_cons, hlast]

namespace Assembler

/-- A constant that is asked for, by the texts it stands for. -/
inductive Demand
  | text (value : String)
  | className (name : String)
  | nameAndType (name descriptor : String)
  | methodRef (owner name descriptor : String) (isInterface : Bool)
  | invokeDynamic (name descriptor : String)
  deriving DecidableEq, Repr

namespace Demand

def texts : Demand → List String
  | text value => [value]
  | className name => [name]
  | nameAndType name descriptor | invokeDynamic name descriptor => [name, descriptor]
  | methodRef owner name descriptor _ => [owner, name, descriptor]

def Fits (demand : Demand) : Prop := ∀ text ∈ demand.texts, (Constant.utf8 text).Fits

instance (demand : Demand) : Decidable demand.Fits :=
  inferInstanceAs (Decidable (∀ text ∈ demand.texts, (Constant.utf8 text).Fits))

def request : Demand → Request
  | text value => Pool.text value
  | className name => Pool.className name
  | nameAndType name descriptor => Pool.nameAndType name descriptor
  | methodRef owner name descriptor isInterface =>
      Pool.methodRef owner name descriptor isInterface
  | invokeDynamic name descriptor => Pool.invokeDynamic name descriptor

/-- What is asked of a store, whatever way it interns single constants. -/
def issue {Store : Type → Type} [Monad Store] (intern : Constant → Store UInt16) :
    Demand → Store UInt16
  | text value => intern (.utf8 value)
  | className name => type name
  | nameAndType name descriptor => member name descriptor
  | methodRef owner name descriptor isInterface => do
      let owner ← type owner
      let member ← member name descriptor
      if isInterface then
        intern (.interfaceMethodRef owner member)
      else
        intern (.methodRef owner member)
  | invokeDynamic name descriptor => do
      let member ← member name descriptor
      intern (.invokeDynamic 0 member)
where
  type (name : String) : Store UInt16 := do
    intern (.classRef (← intern (.utf8 name)))
  member (name descriptor : String) : Store UInt16 := do
    let name ← intern (.utf8 name)
    let descriptor ← intern (.utf8 descriptor)
    intern (.nameAndType name descriptor)

theorem request_eq_issue (demand : Demand) : demand.request = demand.issue Pool.intern := by
  cases demand <;> rfl

/-- What the index means in a class with the given constants. -/
def ResolvesTo (slots : ConstantPool) (index : UInt16) : Demand → Prop
  | text value => slots.text index = .ok value
  | className name => slots.className index = .ok name
  | nameAndType name descriptor => slots.nameAndType index = .ok { name, descriptor }
  | methodRef owner name descriptor isInterface =>
      slots.methodRef index = .ok { owner, name, descriptor, isInterface }
  | invokeDynamic name descriptor => slots.invokeDynamic index = .ok { name, descriptor }

def tag : Demand → Constant.Tag
  | text _ => .utf8
  | className _ => .classRef
  | nameAndType .. => .nameAndType
  | methodRef _ _ _ isInterface => if isInterface then .interfaceMethodRef else .methodRef
  | invokeDynamic .. => .invokeDynamic

end Demand

/-- The constants collected so far, as they are stored. -/
structure Register where
  data : Bytes
  interned : Std.HashMap Bytes UInt16
  next : UInt16

namespace Register

def empty : Register := { data := [], interned := ∅, next := 1 }

/-- The index of a stored form, which is added if it is new. -/
def intern (entry : Bytes) : StateM Register UInt16 := fun register =>
  match register.interned[entry]? with
  | some index => (index, register)
  | none =>
      (register.next,
        { data := register.data ++ entry
          interned := register.interned.insert entry register.next
          next := register.next + 1 })

end Register

def Demand.enter (demand : Demand) : StateM Register UInt16 :=
  demand.issue (fun constant => Register.intern constant.encode)

namespace Register

/-! ## Requests made again -/

/-- The later register has the indices of the earlier one. -/
def Extends (earlier later : Register) : Prop :=
  ∀ (entry : Bytes) (index : UInt16),
    earlier.interned[entry]? = some index → later.interned[entry]? = some index

theorem Extends.refl (register : Register) : register.Extends register :=
  fun _ _ hfound => hfound

theorem Extends.trans {first second third : Register} (hfirst : first.Extends second)
    (hsecond : second.Extends third) : first.Extends third :=
  fun entry index hfound => hsecond entry index (hfirst entry index hfound)

/-- Asked again, now or later, the request gives the same answer and changes nothing. -/
def Recurs {Value : Type} (request : StateM Register Value) : Prop :=
  ∀ ⦃register value later⦄, request.run register = (value, later) →
    register.Extends later ∧ ∀ final, later.Extends final → request.run final = (value, final)

section Recurs

variable {Value Result : Type}

theorem recurs_bind {first : StateM Register Value} {next : Value → StateM Register Result}
    (hfirst : Recurs first) (hnext : ∀ value, Recurs (next value)) : Recurs (first >>= next) := by
  intro register result later hrun
  rcases hmiddle : first.run register with ⟨value, middle⟩
  rw [StateT.run_bind, hmiddle] at hrun
  obtain ⟨hgrown, hagain⟩ := hfirst hmiddle
  obtain ⟨hgrown', hagain'⟩ := hnext value hrun
  refine ⟨hgrown.trans hgrown', fun final hfinal => ?_⟩
  rw [StateT.run_bind, hagain final (hgrown'.trans hfinal)]
  exact hagain' final hfinal

theorem recurs_intern (entry : Bytes) : Recurs (intern entry) := by
  intro register index later hrun
  change intern entry register = (index, later) at hrun
  have hhit : ∀ final : Register, final.interned[entry]? = some index →
      (intern entry).run final = (index, final) := by
    intro final hfound
    change intern entry final = (index, final)
    rw [intern, hfound]
  rw [intern] at hrun
  cases hfound : register.interned[entry]? with
  | some found =>
      rw [hfound] at hrun
      cases hrun
      exact ⟨Extends.refl register, fun final hfinal => hhit final (hfinal entry _ hfound)⟩
  | none =>
      rw [hfound] at hrun
      cases hrun
      constructor
      · intro other index hother
        rw [Std.HashMap.getElem?_insert, if_neg]
        · exact hother
        · intro hsame
          rw [← eq_of_beq hsame, hfound] at hother
          cases hother
      · intro final hfinal
        refine hhit final (hfinal entry _ ?_)
        rw [Std.HashMap.getElem?_insert, if_pos BEq.rfl]

theorem recurs_enter (demand : Demand) : Recurs demand.enter := by
  have htype : ∀ name,
      Recurs (Demand.issue.type (fun constant => intern constant.encode) name) :=
    fun _ => recurs_bind (recurs_intern _) (fun _ => recurs_intern _)
  have hmember : ∀ name descriptor,
      Recurs (Demand.issue.member (fun constant => intern constant.encode) name descriptor) :=
    fun _ _ => recurs_bind (recurs_intern _) (fun _ =>
      recurs_bind (recurs_intern _) (fun _ => recurs_intern _))
  cases demand with
  | text value => exact recurs_intern _
  | className name => exact htype name
  | nameAndType name descriptor => exact hmember name descriptor
  | methodRef owner name descriptor isInterface =>
      refine recurs_bind (htype owner) (fun _ =>
        recurs_bind (hmember name descriptor) (fun _ => ?_))
      cases isInterface <;> exact recurs_intern _
  | invokeDynamic name descriptor =>
      exact recurs_bind (hmember name descriptor) (fun _ => recurs_intern _)

/-- Behind a run of demands each of them has the index it was answered. -/
theorem recurs_mapM (demands : List Demand) {register later : Register} {indices : List UInt16}
    (hrun : (demands.mapM Demand.enter).run register = (indices, later)) :
    register.Extends later ∧ ∀ final, later.Extends final →
      List.Forall₂ (fun demand index => demand.enter.run final = (index, final))
        demands indices := by
  induction demands generalizing register indices with
  | nil =>
      cases hrun
      exact ⟨Extends.refl _, fun final _ => List.Forall₂.nil⟩
  | cons demand demands ih =>
      rcases hfirst : demand.enter.run register with ⟨index, middle⟩
      rcases hothers : (demands.mapM Demand.enter).run middle with ⟨others, last⟩
      rw [List.mapM_cons, StateT.run_bind, hfirst] at hrun
      change (demands.mapM Demand.enter >>= fun others => pure (index :: others)).run middle =
        (indices, later) at hrun
      rw [StateT.run_bind, hothers] at hrun
      cases hrun
      obtain ⟨hgrown, hagain⟩ := recurs_enter demand hfirst
      obtain ⟨hgrown', hagain'⟩ := ih hothers
      exact ⟨hgrown.trans hgrown', fun final hfinal =>
        List.Forall₂.cons (hagain final (hgrown'.trans hfinal)) (hagain' final hfinal)⟩

end Recurs

/-! ## The register and the pool -/

/-- The register is the stored form of the pool, whose constants differ from one another. -/
structure Keeps (register : Register) (pool : Pool) : Prop where
  data : register.data = pool.data
  next : register.next = pool.next
  interned : ∀ entry : Bytes, register.interned[entry]? =
    ((pool.entries.toList.map Constant.encode).idxOf? entry).map
      (fun position => UInt16.ofNat (position + 1))
  distinct : pool.entries.toList.Nodup
  sound : pool.Sound

theorem keeps_empty : empty.Keeps Pool.empty where
  data := rfl
  next := rfl
  interned := fun _ => Std.HashMap.getElem?_empty
  distinct := List.nodup_nil
  sound := Pool.sound_empty

/-- The register answers what the pool does, and goes on to keep it. -/
def Simulates {Value : Type} (ask : StateM Register Value) (request : StateM Pool Value) : Prop :=
  ∀ ⦃register pool⦄, register.Keeps pool → ∃ value after later,
    ask.run register = (value, after) ∧ request.run pool = (value, later) ∧ after.Keeps later

section Simulates

variable {Value Result Item : Type}

theorem simulates_pure (value : Value) : Simulates (pure value) (pure value) :=
  fun register pool hkeeps => ⟨value, register, pool, rfl, rfl, hkeeps⟩

theorem simulates_bind {ask : StateM Register Value} {request : StateM Pool Value}
    {askNext : Value → StateM Register Result} {requestNext : Value → StateM Pool Result}
    (hfirst : Simulates ask request)
    (hnext : ∀ value, Simulates (askNext value) (requestNext value)) :
    Simulates (ask >>= askNext) (request >>= requestNext) := by
  intro register pool hkeeps
  obtain ⟨value, middle, between, hask, hrequest, hmiddle⟩ := hfirst hkeeps
  obtain ⟨result, after, later, hask', hrequest', hlater⟩ := hnext value hmiddle
  refine ⟨result, after, later, ?_, ?_, hlater⟩
  · rw [StateT.run_bind, hask]
    exact hask'
  · rw [StateT.run_bind, hrequest]
    exact hrequest'

theorem simulates_mapM {ask : Item → StateM Register Value} {request : Item → StateM Pool Value}
    {items : List Item} (hitems : ∀ item ∈ items, Simulates (ask item) (request item)) :
    Simulates (items.mapM ask) (items.mapM request) := by
  induction items with
  | nil => exact simulates_pure []
  | cons item items ih =>
      rw [List.forall_mem_cons] at hitems
      rw [List.mapM_cons, List.mapM_cons]
      exact simulates_bind hitems.1 (fun value =>
        simulates_bind (ih hitems.2) (fun values => simulates_pure (value :: values)))

/-- A new constant goes behind those that are kept. -/
theorem Keeps.push {register : Register} {pool : Pool} (hkeeps : register.Keeps pool)
    {constant : Constant} (hfits : constant.Fits) (hnarrow : constant.isWide = false)
    (hnew : constant ∉ pool.entries.toList) :
    Keeps
      { data := register.data ++ constant.encode
        interned := register.interned.insert constant.encode register.next
        next := register.next + 1 }
      { entries := pool.entries.push constant } := by
  have hentries : (pool.entries.push constant).toList = pool.entries.toList ++ [constant] :=
    Array.toList_push
  have hfresh : (pool.entries.toList.map Constant.encode).idxOf? constant.encode = none := by
    rw [Constant.idxOf?_encode (fun entry hentry => (hkeeps.sound entry hentry).1) hfits]
    exact List.idxOf?_eq_none_iff.mpr hnew
  refine ⟨?_, ?_, ?_, ?_, ?_⟩
  · rw [Pool.data, hentries, List.flatMap_append, List.flatMap_singleton, hkeeps.data]
    rfl
  · rw [Pool.next, Array.size_push, hkeeps.next, Pool.next]
    exact (UInt16.ofNat_add (pool.entries.size + 1) 1).symm
  · intro entry
    rw [Std.HashMap.getElem?_insert, hentries, List.map_append, List.map_singleton, idxOf?_concat]
    by_cases hsame : constant.encode = entry
    · rw [← hsame, hfresh, if_pos BEq.rfl, if_pos BEq.rfl, hkeeps.next, Pool.next,
        List.length_map, Array.length_toList]
      rfl
    · rw [if_neg (fun hbeq => hsame (eq_of_beq hbeq)), if_neg (fun hbeq => hsame (eq_of_beq hbeq)),
        Option.or_none]
      exact hkeeps.interned entry
  · rw [hentries]
    exact hkeeps.distinct.append (List.nodup_singleton constant)
      (List.disjoint_singleton.mpr hnew)
  · rw [Pool.Sound, hentries, List.forall_mem_append, List.forall_mem_singleton]
    exact ⟨hkeeps.sound, hfits, hnarrow⟩

theorem simulates_intern {constant : Constant} (hfits : constant.Fits)
    (hnarrow : constant.isWide = false) :
    Simulates (intern constant.encode) (Pool.intern constant) := by
  intro register pool hkeeps
  have hlisted : pool.entries.idxOf? constant =
      (pool.entries.toList.map Constant.encode).idxOf? constant.encode := by
    rw [Constant.idxOf?_encode (fun entry hentry => (hkeeps.sound entry hentry).1) hfits,
      ← List.idxOf?_toArray, Array.toArray_toList]
  have hfound := hkeeps.interned constant.encode
  rw [← hlisted] at hfound
  cases hposition : pool.entries.idxOf? constant with
  | some position =>
      rw [hposition] at hfound
      refine ⟨UInt16.ofNat (position + 1), register, pool, ?_, ?_, hkeeps⟩
      · change intern constant.encode register = _
        rw [intern, hfound]
        rfl
      · change Pool.intern constant pool = _
        rw [Pool.intern, hposition]
  | none =>
      rw [hposition] at hfound
      have hnew : constant ∉ pool.entries.toList := by
        rw [← List.idxOf?_eq_none_iff, ← List.idxOf?_toArray, Array.toArray_toList]
        exact hposition
      refine ⟨register.next, _, _, ?_, ?_, hkeeps.push hfits hnarrow hnew⟩
      · change intern constant.encode register = _
        rw [intern, hfound]
        rfl
      · change Pool.intern constant pool = _
        rw [Pool.intern, hposition, hkeeps.next]

theorem simulates_enter {demand : Demand} (hfits : demand.Fits) :
    Simulates demand.enter demand.request := by
  have htext : ∀ value ∈ demand.texts,
      Simulates (intern (Constant.utf8 value).encode) (Pool.intern (.utf8 value)) :=
    fun value hvalue => simulates_intern (hfits value hvalue) rfl
  have hlink : ∀ constant : Constant, constant.Fits → constant.isWide = false →
      Simulates (intern constant.encode) (Pool.intern constant) :=
    fun constant => simulates_intern
  have htype : ∀ name ∈ demand.texts,
      Simulates (Demand.issue.type (fun constant => intern constant.encode) name)
        (Demand.issue.type Pool.intern name) :=
    fun name hname => simulates_bind (htext name hname) (fun _ => hlink _ trivial rfl)
  have hmember : ∀ name ∈ demand.texts, ∀ descriptor ∈ demand.texts,
      Simulates (Demand.issue.member (fun constant => intern constant.encode) name descriptor)
        (Demand.issue.member Pool.intern name descriptor) :=
    fun name hname descriptor hdescriptor => simulates_bind (htext name hname) (fun _ =>
      simulates_bind (htext descriptor hdescriptor) (fun _ => hlink _ trivial rfl))
  rw [Demand.request_eq_issue]
  cases demand with
  | text value => exact htext value (by simp [Demand.texts])
  | className name => exact htype name (by simp [Demand.texts])
  | nameAndType name descriptor =>
      exact hmember name (by simp [Demand.texts]) descriptor (by simp [Demand.texts])
  | methodRef owner name descriptor isInterface =>
      refine simulates_bind (htype owner (by simp [Demand.texts])) (fun _ => simulates_bind
        (hmember name (by simp [Demand.texts]) descriptor (by simp [Demand.texts])) (fun _ => ?_))
      cases isInterface <;> exact hlink _ trivial rfl
  | invokeDynamic name descriptor =>
      exact simulates_bind (hmember name (by simp [Demand.texts]) descriptor
        (by simp [Demand.texts])) (fun _ => hlink _ trivial rfl)

end Simulates

end Register

/-! ## What the indices mean -/

namespace Demand

variable {demand : Demand}

/-- The answer to a demand resolves to its texts in every pool that is grown into. -/
theorem secures_request (hfits : demand.Fits) :
    Pool.Secures demand.request (fun slots index => demand.ResolvesTo slots index) := by
  cases demand with
  | text value =>
      exact (Pool.secures_text (hfits value (by simp [texts]))).imp
        (fun _ _ hindex => ConstantPool.text_eq_ok_iff.mpr hindex)
  | className name =>
      exact (Pool.secures_className (hfits name (by simp [texts]))).imp
        (fun _ _ hindex => ConstantPool.className_eq_ok_iff.mpr hindex)
  | nameAndType name descriptor =>
      exact (Pool.secures_nameAndType (hfits name (by simp [texts]))
        (hfits descriptor (by simp [texts]))).imp
        (fun _ _ hindex => ConstantPool.nameAndType_eq_ok_iff.mpr hindex)
  | methodRef owner name descriptor isInterface =>
      exact Pool.secures_methodRef (hfits owner (by simp [texts])) (hfits name (by simp [texts]))
        (hfits descriptor (by simp [texts])) isInterface
  | invokeDynamic name descriptor =>
      exact (Pool.secures_invokeDynamic (hfits name (by simp [texts]))
        (hfits descriptor (by simp [texts]))).imp
        (fun _ _ hindex => ConstantPool.invokeDynamic_eq_ok_iff.mpr hindex)

variable {slots : ConstantPool} {index : UInt16}

/-- An index that resolves to what was asked for leads to a constant of that kind. -/
theorem ResolvesTo.exists_holds (hresolves : demand.ResolvesTo slots index) :
    ∃ constant, slots.Holds index constant ∧ constant.tag = demand.tag := by
  cases demand with
  | text value => exact ⟨_, ConstantPool.text_eq_ok_iff.mp hresolves, rfl⟩
  | className name =>
      obtain ⟨_, hholds, _⟩ := ConstantPool.className_eq_ok_iff.mp hresolves
      exact ⟨_, hholds, rfl⟩
  | nameAndType name descriptor =>
      obtain ⟨_, _, hholds, _⟩ := ConstantPool.nameAndType_eq_ok_iff.mp hresolves
      exact ⟨_, hholds, rfl⟩
  | methodRef owner name descriptor isInterface =>
      obtain ⟨_, _, hholds, _⟩ := ConstantPool.methodRef_eq_ok_iff.mp hresolves
      exact ⟨_, hholds, by cases isInterface <;> rfl⟩
  | invokeDynamic name descriptor =>
      obtain ⟨_, _, hholds, _⟩ := ConstantPool.invokeDynamic_eq_ok_iff.mp hresolves
      exact ⟨_, hholds, rfl⟩

/-- An index resolves to what was asked for in one way only.  Demands of one kind are told
apart by their texts, others by their tags. -/
theorem ResolvesTo.unique {other : Demand} (hresolves : demand.ResolvesTo slots index)
    (hother : other.ResolvesTo slots index) : demand = other := by
  have htag : demand.tag = other.tag := by
    obtain ⟨constant, hholds, htag⟩ := hresolves.exists_holds
    obtain ⟨constant', hholds', htag'⟩ := hother.exists_holds
    have hsame : constant = constant' := by
      cases (hholds.symm.trans hholds' : some (some constant) = some (some constant'))
      rfl
    rw [← htag, hsame, htag']
  cases demand with
  | text value =>
      cases other with
      | text value' => cases hresolves.symm.trans hother; rfl
      | methodRef _ _ _ isInterface => cases isInterface <;> cases htag
      | className _ | nameAndType _ _ | invokeDynamic _ _ => cases htag
  | className name =>
      cases other with
      | className name' => cases hresolves.symm.trans hother; rfl
      | methodRef _ _ _ isInterface => cases isInterface <;> cases htag
      | text _ | nameAndType _ _ | invokeDynamic _ _ => cases htag
  | nameAndType name descriptor =>
      cases other with
      | nameAndType name' descriptor' => cases hresolves.symm.trans hother; rfl
      | methodRef _ _ _ isInterface => cases isInterface <;> cases htag
      | text _ | className _ | invokeDynamic _ _ => cases htag
  | methodRef owner name descriptor isInterface =>
      cases other with
      | methodRef _ _ _ _ => cases hresolves.symm.trans hother; rfl
      | text _ | className _ | nameAndType _ _ | invokeDynamic _ _ =>
          cases isInterface <;> cases htag
  | invokeDynamic name descriptor =>
      cases other with
      | invokeDynamic name' descriptor' => cases hresolves.symm.trans hother; rfl
      | methodRef _ _ _ isInterface => cases isInterface <;> cases htag
      | text _ | className _ | nameAndType _ _ => cases htag

end Demand

namespace Register

/-- The register has interned the constants, each once, in answer to the demands with the
indices. -/
structure IsFaithful (register : Register) (constants : List Constant) (demands : List Demand)
    (indices : List UInt16) : Prop where
  data : register.data = constants.flatMap Constant.encode
  next : register.next.toNat = constants.length + 1
  distinct : (constants.map Constant.encode).Nodup
  interned : ∀ entry : Bytes, register.interned[entry]? =
    ((constants.map Constant.encode).idxOf? entry).map
      (fun position => UInt16.ofNat (position + 1))
  again : List.Forall₂ (fun demand index => demand.enter.run register = (index, register))
    demands indices
  injective : ∀ first ∈ demands.zip indices, ∀ second ∈ demands.zip indices,
    first.2 = second.2 ↔ first.1 = second.1
  stored : digits 2 register.next.toNat ++ register.data = ConstantPool.encode constants
  resolves : ∃ slots next,
    ConstantPool.decode (.start (digits 2 register.next.toNat ++ register.data)) =
      .ok slots next ∧ next.atEnd = true ∧
    List.Forall₂ (fun demand index => demand.ResolvesTo slots index) demands indices

/-- A register in step with a pool is faithful if the indices of the pool fit two bytes. -/
theorem Keeps.isFaithful {register : Register} {pool : Pool} (hkeeps : register.Keeps pool)
    (hsmall : pool.entries.size < 0xFFFF) {demands : List Demand} {indices : List UInt16}
    (hmeans : List.Forall₂ (fun demand index => demand.ResolvesTo pool.slots index)
      demands indices)
    (hagain : List.Forall₂ (fun demand index => demand.enter.run register = (index, register))
      demands indices) :
    register.IsFaithful pool.entries.toList demands indices := by
  have hnext : register.next.toNat = pool.entries.size + 1 := by
    rw [hkeeps.next, Pool.next, UInt16.toNat_ofNat_of_lt' (Nat.succ_lt_succ hsmall)]
  have hstored : digits 2 register.next.toNat ++ register.data =
      ConstantPool.encode pool.entries.toList := by
    rw [hnext, hkeeps.data, ← hkeeps.sound.size_slots]
    rfl
  have hread : ConstantPool.decode.Accepts (ConstantPool.encode pool.entries.toList) pool.slots :=
    ConstantPool.accepts_decode (fun constant hconstant => (hkeeps.sound constant hconstant).1)
      (hkeeps.sound.size_slots ▸ Nat.succ_lt_succ hsmall)
  refine ⟨hkeeps.data, hnext, ?_, hkeeps.interned, hagain, ?_, hstored, ?_⟩
  · refine hkeeps.distinct.map_on (fun left hleft right hright hsame => ?_)
    exact Constant.encode_injective (hkeeps.sound left hleft).1 (hkeeps.sound right hright).1 hsame
  · intro first hfirst second hsecond
    constructor
    · intro hindex
      have hresolves := List.forall₂_zip hmeans hsecond
      rw [← hindex] at hresolves
      exact (List.forall₂_zip hmeans hfirst).unique hresolves
    · intro hdemand
      have hanswer := List.forall₂_zip hagain hsecond
      rw [← hdemand] at hanswer
      exact congrArg Prod.fst ((List.forall₂_zip hagain hfirst).symm.trans hanswer)
  · obtain ⟨stop, hspans, hrest⟩ :=
      (Cursor.start (ConstantPool.encode pool.entries.toList)).exists_spans
        (List.append_nil _).symm
    rw [hstored]
    refine ⟨pool.slots, stop, hread hspans, ?_, hmeans⟩
    rw [Cursor.atEnd, hrest]
    rfl

/-- Demands that can be met leave a faithful register behind. -/
theorem exists_isFaithful {demands : List Demand} (hfits : ∀ demand ∈ demands, demand.Fits)
    (hsmall : ((demands.mapM Demand.request).run Pool.empty).2.entries.size < 0xFFFF) :
    ∃ indices pool register,
      (demands.mapM Demand.request).run Pool.empty = (indices, pool) ∧
      (demands.mapM Demand.enter).run empty = (indices, register) ∧
      register.IsFaithful pool.entries.toList demands indices := by
  obtain ⟨indices, register, pool, henter, hrequest, hkeeps⟩ :=
    simulates_mapM (fun demand hdemand => simulates_enter (hfits demand hdemand)) keeps_empty
  rw [hrequest] at hsmall
  have hpool : pool.GrowsInto pool := ⟨Pool.Extends.refl pool, hkeeps.sound, hsmall⟩
  have hmeans := (Pool.secures_mapM
    (fun demand hdemand => Demand.secures_request (hfits demand hdemand))
    Pool.sound_empty hrequest).2.2 pool hpool
  have hagain := (recurs_mapM demands henter).2 register (Extends.refl register)
  exact ⟨indices, pool, register, hrequest, henter, hkeeps.isFaithful hsmall hmeans hagain⟩

/-- Interning is stable, minimal and faithful.  Let any constants be asked for in any order,
with texts that can be stored, and fewer than 65535 different ones in all.  The register
then answers what the pool does.  Its data are the stored forms of the constants in the
order of their indices, its next index is one more than their count, and its table leads
from each of the forms, which differ from one another, to its index.  Every demand that is
made again has the answer it had before and changes nothing, and two of them have the same
answer exactly if they are the same.  The bytes are read back as a pool in which the answer
to each demand resolves to the texts that were asked for. -/
theorem interning_faithful {demands : List Demand} (hfits : ∀ demand ∈ demands, demand.Fits)
    (hsmall : ((demands.mapM Demand.request).run Pool.empty).2.entries.size < 0xFFFF) :
    ∃ indices pool register,
      (demands.mapM Demand.request).run Pool.empty = (indices, pool) ∧
      (demands.mapM Demand.enter).run empty = (indices, register) ∧
      register.data = pool.entries.toList.flatMap Constant.encode ∧
      register.next.toNat = pool.entries.size + 1 ∧
      (pool.entries.toList.map Constant.encode).Nodup ∧
      (∀ entry : Bytes, register.interned[entry]? =
        ((pool.entries.toList.map Constant.encode).idxOf? entry).map
          (fun position => UInt16.ofNat (position + 1))) ∧
      List.Forall₂ (fun demand index => demand.enter.run register = (index, register))
        demands indices ∧
      (∀ first ∈ demands.zip indices, ∀ second ∈ demands.zip indices,
        first.2 = second.2 ↔ first.1 = second.1) ∧
      ∃ slots next,
        ConstantPool.decode (.start (digits 2 register.next.toNat ++ register.data)) =
          .ok slots next ∧ next.atEnd = true ∧
        List.Forall₂ (fun demand index => demand.ResolvesTo slots index) demands indices := by
  obtain ⟨indices, pool, register, hrequest, henter, hfaithful⟩ :=
    exists_isFaithful hfits hsmall
  exact ⟨indices, pool, register, hrequest, henter, hfaithful.data, hfaithful.next,
    hfaithful.distinct, hfaithful.interned, hfaithful.again, hfaithful.injective,
    hfaithful.resolves⟩

/-- Two methods of one name, of a class and of an interface, and what they lead to. -/
theorem interning_faithful_methods :
    let demands : List Demand := [.methodRef "A" "f" "()V" false, .methodRef "A" "f" "()V" true,
      .text "A", .invokeDynamic "f" "()V", .className "A"]
    (∀ demand ∈ demands, demand.Fits) ∧
      ((demands.mapM Demand.request).run Pool.empty).2.entries.size = 8 ∧
      ∃ register, (demands.mapM Demand.enter).run empty = ([6, 7, 1, 8, 2], register) ∧
        register.next.toNat = 9 := by
  intro demands
  have hfits : ∀ demand ∈ demands, demand.Fits := by decide +kernel
  have hsize : ((demands.mapM Demand.request).run Pool.empty).2.entries.size = 8 := by
    decide +kernel
  have hindices : ((demands.mapM Demand.request).run Pool.empty).1 = [6, 7, 1, 8, 2] := by
    decide +kernel
  obtain ⟨indices, pool, register, hrequest, henter, _, hnext, _⟩ :=
    interning_faithful hfits (by rw [hsize]; decide)
  have hcount := hsize
  rw [hrequest] at hindices hcount
  refine ⟨hfits, hsize, register, ?_, ?_⟩
  · rw [henter, ← hindices]
  · rw [hnext, hcount]

end Register

end Assembler

end JvmCalls

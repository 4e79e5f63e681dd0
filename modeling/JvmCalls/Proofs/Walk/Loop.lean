import JvmCalls.Walk.Chunked

/-!
# The chunk loop

The chunked walk of an archive as the loop that it is, one moment after another.  The
loop decides whether there is another chunk, reads entries into it, and hands on its
classes.  A moment has the classes that the chunk holds and notes which entries were read
and which classes were handed on.  One step keeps what is sound about a moment and comes
nearer to the end, so that every moment is sound and the loop ends.
-/

namespace JvmCalls

namespace Archive

variable {archive : Archive} {index : Nat}

def isClassAt (archive : Archive) (index : Nat) : Bool :=
  match archive.entry index with
  | .ok (.classFile _ _) => true
  | _ => false

def classesBefore (archive : Archive) (index : Nat) : List Nat :=
  (List.range index).filter archive.isClassAt

def ReadableBelow (archive : Archive) (index : Nat) : Prop :=
  ∀ earlier < index, ∃ entry, archive.entry earlier = .ok entry

theorem classesBefore_succ (archive : Archive) (index : Nat) :
    archive.classesBefore (index + 1) =
      archive.classesBefore index ++ if archive.isClassAt index then [index] else [] := by
  rw [classesBefore, List.range_succ, List.filter_append, List.filter_cons, List.filter_nil]
  rfl

theorem classesBefore_succ_of_class {name : String} {data : Bytes}
    (hentry : archive.entry index = .ok (.classFile name data)) :
    archive.classesBefore (index + 1) = archive.classesBefore index ++ [index] := by
  rw [classesBefore_succ, isClassAt, hentry]
  rfl

theorem classesBefore_succ_of_skipped {name : String}
    (hentry : archive.entry index = .ok (.skipped name)) :
    archive.classesBefore (index + 1) = archive.classesBefore index := by
  rw [classesBefore_succ, isClassAt, hentry]
  exact List.append_nil _

theorem classesBefore_succ_of_error {fault : ArchiveFault}
    (hentry : archive.entry index = .error fault) :
    archive.classesBefore (index + 1) = archive.classesBefore index := by
  rw [classesBefore_succ, isClassAt, hentry]
  exact List.append_nil _

theorem ReadableBelow.succ {entry : Entry} (hreadable : archive.ReadableBelow index)
    (hentry : archive.entry index = .ok entry) : archive.ReadableBelow (index + 1) := by
  intro earlier hearlier
  rcases Nat.lt_succ_iff_lt_or_eq.mp hearlier with hlt | rfl
  · exact hreadable earlier hlt
  · exact ⟨entry, hentry⟩

end Archive

/-- A class that was read and not yet handed on. -/
structure HeldClass where
  index : Nat
  name : String
  data : Bytes
  deriving DecidableEq, Repr

def HeldClass.read (item : HeldClass) : EntryRead := .ok (.classFile item.name item.data)

inductive Phase (State SinkFault : Type)
  | choosing
  | reading
  | delivering (fault : Option ArchiveFault)
  | ended (result : EStateM.Result (WalkFault SinkFault) State WalkStats)

structure Moment (State SinkFault : Type) where
  phase : Phase State SinkFault
  index : Nat
  chunkStart : Nat
  held : List HeldClass
  stats : WalkStats
  state : State
  read : List Nat
  /-- The indices of the classes that were handed on, also the one that was refused. -/
  delivered : List Nat

variable {State SinkFault : Type}

namespace Moment

def start (state : State) : Moment State SinkFault where
  phase := .choosing
  index := 0
  chunkStart := 0
  held := []
  stats := WalkStats.zero
  state
  read := []
  delivered := []

def take (moment : Moment State SinkFault) (outcome : EntryRead) : Moment State SinkFault :=
  let next := { moment with index := moment.index + 1, read := moment.read ++ [moment.index] }
  match outcome with
  | .ok (.skipped _) => { next with stats := moment.stats.countSkipped }
  | .ok (.classFile name data) =>
      { next with held := moment.held ++ [⟨moment.index, name, data⟩] }
  | .error fault =>
      { next with
        phase := if fault.endsRun then .ended (.error (.read fault) moment.state)
          else .delivering (some fault) }

def handOn (moment : Moment State SinkFault) (item : HeldClass) (rest : List HeldClass) :
    EStateM.Result (WalkFault SinkFault) State WalkStats → Moment State SinkFault
  | .ok stats state =>
      { moment with
        held := rest, stats, state, delivered := moment.delivered ++ [item.index] }
  | .error fault state =>
      { moment with
        held := rest, state, delivered := moment.delivered ++ [item.index]
        phase := .ended (.error fault state) }

def closeChunk (moment : Moment State SinkFault) : Option ArchiveFault → Moment State SinkFault
  | none => { moment with phase := .choosing }
  | some fault => { moment with phase := .ended (.error (.read fault) moment.state) }

end Moment

namespace Walker

def deliverHeld (walker : Walker) (sink : Sink State SinkFault) (stats : WalkStats)
    (item : HeldClass) : Walk State SinkFault WalkStats :=
  walker.deliver sink item.name (callsOfBytes walker.filter item.data) stats.countClass

def advance (walker : Walker) (sink : Sink State SinkFault) (archive : Archive)
    (moment : Moment State SinkFault) : Moment State SinkFault :=
  match moment.phase with
  | .choosing =>
      if moment.index < archive.size then
        { moment with phase := .reading, chunkStart := moment.index }
      else
        { moment with phase := .ended (.ok moment.stats moment.state) }
  | .reading =>
      if moment.index < archive.size ∧ moment.held.length < Chunk.capacity then
        moment.take (archive.entry moment.index)
      else
        { moment with phase := .delivering none }
  | .delivering fault =>
      match moment.held with
      | [] => moment.closeChunk fault
      | item :: rest =>
          moment.handOn item rest (walker.deliverHeld sink moment.stats item moment.state)
  | .ended _ => moment

def momentAfter (walker : Walker) (sink : Sink State SinkFault) (archive : Archive)
    (state : State) : (count : Nat) → Moment State SinkFault
  | 0 => Moment.start state
  | count + 1 => walker.advance sink archive (walker.momentAfter sink archive state count)

end Walker

inductive Moment.Concludes (walker : Walker) (sink : Sink State SinkFault) (archive : Archive)
    (moment : Moment State SinkFault) :
    EStateM.Result (WalkFault SinkFault) State WalkStats → Prop
  | complete (hindex : moment.index = archive.size)
      (hreadable : archive.ReadableBelow archive.size) (hheld : moment.held = []) :
      Concludes walker sink archive moment (.ok moment.stats moment.state)
  | unreadable {last : Nat} {fault : ArchiveFault} (hindex : moment.index = last + 1)
      (hentry : archive.entry last = .error fault) (hkept : fault.endsRun = false)
      (hheld : moment.held = []) :
      Concludes walker sink archive moment (.error (.read fault) moment.state)
  | givenUp {last : Nat} {fault : ArchiveFault} (hindex : moment.index = last + 1)
      (hentry : archive.entry last = .error fault) (hends : fault.endsRun = true) :
      Concludes walker sink archive moment (.error (.read fault) moment.state)
  | refused {item : HeldClass} {earlier : List Nat} {stats : WalkStats} {before : State}
      {fault : WalkFault SinkFault} (hlast : moment.delivered = earlier ++ [item.index])
      (hchunk : moment.chunkStart ≤ item.index) (hentry : archive.entry item.index = item.read)
      (hrefused : walker.deliverHeld sink stats item before = .error fault moment.state) :
      Concludes walker sink archive moment (.error fault moment.state)

/-- What holds at a moment in a phase. -/
def Moment.Suits (walker : Walker) (sink : Sink State SinkFault) (archive : Archive)
    (moment : Moment State SinkFault) : Phase State SinkFault → Prop
  | .choosing => moment.held = [] ∧ archive.ReadableBelow moment.index
  | .reading =>
      moment.delivered = archive.classesBefore moment.chunkStart ∧
        archive.ReadableBelow moment.index ∧
        (moment.chunkStart = moment.index → moment.index < archive.size)
  | .delivering none =>
      moment.chunkStart < moment.index ∧ archive.ReadableBelow moment.index
  | .delivering (some fault) =>
      ∃ last, moment.index = last + 1 ∧ moment.chunkStart ≤ last ∧
        archive.entry last = .error fault ∧ fault.endsRun = false
  | .ended result => moment.Concludes walker sink archive result

structure Moment.Sound (walker : Walker) (sink : Sink State SinkFault) (archive : Archive)
    (moment : Moment State SinkFault) : Prop where
  read : moment.read = List.range moment.index
  within : moment.index ≤ archive.size
  readable : archive.ReadableBelow (moment.index - 1)
  capacity : moment.held.length ≤ Chunk.capacity
  account : moment.delivered ++ moment.held.map HeldClass.index =
    archive.classesBefore moment.index
  held : ∀ item ∈ moment.held,
    moment.chunkStart ≤ item.index ∧ archive.entry item.index = item.read
  started : moment.chunkStart ≤ moment.index
  behind : archive.classesBefore moment.chunkStart <+: moment.delivered
  /-- An entry of the chunk is read only if the chunk has room for another class. -/
  ahead : ∀ index, moment.chunkStart ≤ index → index < moment.index →
    (archive.classesBefore index).length <
      (archive.classesBefore moment.chunkStart).length + Chunk.capacity
  suits : moment.Suits walker sink archive moment.phase

namespace Moment

section Sound

variable {walker : Walker} {sink : Sink State SinkFault} {archive : Archive}
variable {moment : Moment State SinkFault}

theorem sound_start (walker : Walker) (sink : Sink State SinkFault) (archive : Archive)
    (state : State) : (start state).Sound walker sink archive where
  read := rfl
  within := Nat.zero_le _
  readable := fun _ hearlier => absurd hearlier (Nat.not_lt_zero _)
  capacity := Nat.zero_le _
  account := rfl
  held := fun _ hitem => absurd hitem List.not_mem_nil
  started := Nat.le_refl 0
  behind := List.nil_prefix
  ahead := fun index _ hindex => absurd hindex (Nat.not_lt_zero index)
  suits := ⟨rfl, fun _ hearlier => absurd hearlier (Nat.not_lt_zero _)⟩

/-- Where nothing is held, all classes that were read were handed on. -/
theorem Sound.delivered_eq (hsound : moment.Sound walker sink archive)
    (hheld : moment.held = []) : moment.delivered = archive.classesBefore moment.index := by
  have haccount := hsound.account
  rwa [hheld, List.map_nil, List.append_nil] at haccount

/-- A chunk that was only begun holds nothing. -/
theorem Sound.held_eq_nil (hsound : moment.Sound walker sink archive)
    (hdelivered : moment.delivered = archive.classesBefore moment.chunkStart)
    (hbegun : moment.chunkStart = moment.index) : moment.held = [] := by
  have haccount := hsound.account
  rwa [hdelivered, hbegun, List.append_right_eq_self, List.map_eq_nil_iff] at haccount

theorem Sound.advance_choosing (hsound : moment.Sound walker sink archive)
    (hphase : moment.phase = .choosing) :
    (walker.advance sink archive moment).Sound walker sink archive := by
  obtain ⟨hheld, hreadable⟩ : moment.Suits walker sink archive .choosing :=
    hphase ▸ hsound.suits
  have hdelivered := hsound.delivered_eq hheld
  simp only [Walker.advance, hphase]
  split
  · next hindex =>
      exact { hsound with
        held := fun item hitem => absurd (hheld ▸ hitem) List.not_mem_nil
        started := Nat.le_refl _
        behind := hdelivered ▸ List.prefix_rfl
        ahead := fun index hstart hindex => absurd hindex (Nat.not_lt.mpr hstart)
        suits := ⟨hdelivered, hreadable, fun _ => hindex⟩ }
  · next hindex =>
      have hend : moment.index = archive.size :=
        Nat.le_antisymm hsound.within (Nat.not_lt.mp hindex)
      exact { hsound with suits := .complete hend (hend ▸ hreadable) hheld }

/-- Another entry is within the bound of the chunk if the chunk has room. -/
theorem Sound.ahead_succ (hsound : moment.Sound walker sink archive)
    (hdelivered : moment.delivered = archive.classesBefore moment.chunkStart)
    (hroom : moment.held.length < Chunk.capacity) :
    ∀ index, moment.chunkStart ≤ index → index < moment.index + 1 →
      (archive.classesBefore index).length <
        (archive.classesBefore moment.chunkStart).length + Chunk.capacity := by
  intro index hstart hindex
  rcases Nat.lt_succ_iff_lt_or_eq.mp hindex with hlt | rfl
  · exact hsound.ahead index hstart hlt
  · rw [← hsound.account, List.length_append, List.length_map, hdelivered]
    exact Nat.add_lt_add_left hroom _

section Take

variable (moment) (outcome : EntryRead)

@[simp]
theorem take_index : (moment.take outcome).index = moment.index + 1 := by
  match outcome with
  | .ok (.skipped _) | .ok (.classFile _ _) | .error _ => rfl

@[simp]
theorem take_read : (moment.take outcome).read = moment.read ++ [moment.index] := by
  match outcome with
  | .ok (.skipped _) | .ok (.classFile _ _) | .error _ => rfl

@[simp]
theorem take_chunkStart : (moment.take outcome).chunkStart = moment.chunkStart := by
  match outcome with
  | .ok (.skipped _) | .ok (.classFile _ _) | .error _ => rfl

@[simp]
theorem take_delivered : (moment.take outcome).delivered = moment.delivered := by
  match outcome with
  | .ok (.skipped _) | .ok (.classFile _ _) | .error _ => rfl

theorem length_held_take : (moment.take outcome).held.length ≤ moment.held.length + 1 := by
  match outcome with
  | .ok (.skipped _) | .error _ => exact Nat.le_succ _
  | .ok (.classFile _ _) => exact Nat.le_of_eq List.length_append

end Take

theorem Sound.account_take (hsound : moment.Sound walker sink archive) :
    (moment.take (archive.entry moment.index)).delivered ++
        (moment.take (archive.entry moment.index)).held.map HeldClass.index =
      archive.classesBefore (moment.index + 1) := by
  rw [take_delivered]
  match hentry : archive.entry moment.index with
  | .ok (.skipped name) =>
      exact hsound.account.trans (Archive.classesBefore_succ_of_skipped hentry).symm
  | .ok (.classFile name data) =>
      rw [Archive.classesBefore_succ_of_class hentry, ← hsound.account, List.append_assoc,
        Moment.take, List.map_append]
      rfl
  | .error fault =>
      exact hsound.account.trans (Archive.classesBefore_succ_of_error hentry).symm

theorem Sound.held_take (hsound : moment.Sound walker sink archive) :
    ∀ item ∈ (moment.take (archive.entry moment.index)).held,
      moment.chunkStart ≤ item.index ∧ archive.entry item.index = item.read := by
  match hentry : archive.entry moment.index with
  | .ok (.skipped name) => exact hsound.held
  | .error fault => exact hsound.held
  | .ok (.classFile name data) =>
      intro item hitem
      rcases List.mem_append.mp hitem with hearlier | hlast
      · exact hsound.held item hearlier
      · rw [List.mem_singleton.mp hlast]
        exact ⟨hsound.started, hentry⟩

theorem Sound.suits_take (hsound : moment.Sound walker sink archive)
    (hphase : moment.phase = .reading) :
    let next := moment.take (archive.entry moment.index)
    next.Suits walker sink archive next.phase := by
  obtain ⟨hdelivered, hreadable, _⟩ : moment.Suits walker sink archive .reading :=
    hphase ▸ hsound.suits
  have hbegun : moment.chunkStart = moment.index + 1 → moment.index + 1 < archive.size :=
    fun heq => absurd heq (Nat.ne_of_lt (Nat.lt_succ_of_le hsound.started))
  match hentry : archive.entry moment.index with
  | .ok (.skipped name) =>
      simp only [Moment.take, hphase]
      exact ⟨hdelivered, hreadable.succ hentry, hbegun⟩
  | .ok (.classFile name data) =>
      simp only [Moment.take, hphase]
      exact ⟨hdelivered, hreadable.succ hentry, hbegun⟩
  | .error fault =>
      simp only [Moment.take]
      split
      · next hends => exact .givenUp rfl hentry hends
      · next hkept =>
          exact ⟨moment.index, rfl, hsound.started, hentry, Bool.eq_false_iff.mpr hkept⟩

theorem Sound.take (hsound : moment.Sound walker sink archive)
    (hphase : moment.phase = .reading) (hindex : moment.index < archive.size)
    (hroom : moment.held.length < Chunk.capacity) :
    (moment.take (archive.entry moment.index)).Sound walker sink archive := by
  obtain ⟨hdelivered, hreadable, _⟩ : moment.Suits walker sink archive .reading :=
    hphase ▸ hsound.suits
  refine ⟨?_, ?_, ?_, ?_, ?_, ?_, ?_, ?_, ?_, hsound.suits_take hphase⟩
  · rw [take_read, take_index, hsound.read, List.range_succ]
  · rw [take_index]
    exact hindex
  · rw [take_index]
    exact hreadable
  · exact Nat.le_trans (length_held_take moment _) hroom
  · rw [take_index]
    exact hsound.account_take
  · rw [take_chunkStart]
    exact hsound.held_take
  · rw [take_chunkStart, take_index]
    exact Nat.le_succ_of_le hsound.started
  · rw [take_chunkStart, take_delivered]
    exact hsound.behind
  · rw [take_chunkStart, take_index]
    exact hsound.ahead_succ hdelivered hroom

theorem Sound.advance_reading (hsound : moment.Sound walker sink archive)
    (hphase : moment.phase = .reading) :
    (walker.advance sink archive moment).Sound walker sink archive := by
  simp only [Walker.advance, hphase]
  split
  · next hmore => exact hsound.take hphase hmore.1 hmore.2
  · next hfull =>
      obtain ⟨hdelivered, hreadable, hbegun⟩ : moment.Suits walker sink archive .reading :=
        hphase ▸ hsound.suits
      refine { hsound with suits := ⟨?_, hreadable⟩ }
      refine Nat.lt_of_le_of_ne hsound.started (fun heq => hfull ⟨hbegun heq, ?_⟩)
      rw [hsound.held_eq_nil hdelivered heq]
      exact Nat.zero_lt_succ 63

theorem Sound.handOn {fault : Option ArchiveFault} {item : HeldClass} {rest : List HeldClass}
    (hsound : moment.Sound walker sink archive) (hphase : moment.phase = .delivering fault)
    (hheld : moment.held = item :: rest) :
    (moment.handOn item rest
      (walker.deliverHeld sink moment.stats item moment.state)).Sound walker sink archive := by
  obtain ⟨hfirst, hrest⟩ := List.forall_mem_cons.mp (hheld ▸ hsound.held)
  have hcapacity : rest.length ≤ Chunk.capacity := by
    have hlength := hsound.capacity
    rw [hheld, List.length_cons] at hlength
    exact Nat.le_of_succ_le hlength
  have haccount : (moment.delivered ++ [item.index]) ++ rest.map HeldClass.index =
      archive.classesBefore moment.index := by
    rw [← hsound.account, hheld, List.append_assoc]
    rfl
  have hbehind := hsound.behind.trans (List.prefix_append moment.delivered [item.index])
  cases hresult : walker.deliverHeld sink moment.stats item moment.state with
  | ok stats state =>
      have hsuits : moment.Suits walker sink archive (.delivering fault) :=
        hphase ▸ hsound.suits
      exact { hsound with
        capacity := hcapacity
        account := haccount
        held := hrest
        behind := hbehind
        suits := by
          simp only [Moment.handOn, hphase]
          cases fault <;> exact hsuits }
  | error flaw state =>
      exact { hsound with
        capacity := hcapacity
        account := haccount
        held := hrest
        behind := hbehind
        suits := .refused rfl hfirst.1 hfirst.2 hresult }

theorem Sound.closeChunk {fault : Option ArchiveFault}
    (hsound : moment.Sound walker sink archive) (hphase : moment.phase = .delivering fault)
    (hheld : moment.held = []) : (moment.closeChunk fault).Sound walker sink archive := by
  have hsuits : moment.Suits walker sink archive (.delivering fault) := hphase ▸ hsound.suits
  cases fault with
  | none => exact { hsound with suits := ⟨hheld, hsuits.2⟩ }
  | some fault =>
      obtain ⟨last, hindex, _, hentry, hkept⟩ := hsuits
      exact { hsound with suits := .unreadable hindex hentry hkept hheld }

/-- One step keeps a moment sound. -/
theorem Sound.advance (hsound : moment.Sound walker sink archive) :
    (walker.advance sink archive moment).Sound walker sink archive := by
  cases hphase : moment.phase with
  | choosing => exact hsound.advance_choosing hphase
  | reading => exact hsound.advance_reading hphase
  | delivering fault =>
      simp only [Walker.advance, hphase]
      cases hheld : moment.held with
      | nil => exact hsound.closeChunk hphase hheld
      | cons item rest => exact hsound.handOn hphase hheld
  | ended result =>
      simp only [Walker.advance, hphase]
      exact hsound

/-- Every moment of the loop is sound. -/
theorem sound_momentAfter (walker : Walker) (sink : Sink State SinkFault) (archive : Archive)
    (state : State) (count : Nat) :
    (walker.momentAfter sink archive state count).Sound walker sink archive := by
  induction count with
  | zero => exact sound_start walker sink archive state
  | succ count ih => exact ih.advance

/-- A bound on the steps that the loop still takes. -/
def stepsLeft (archive : Archive) (moment : Moment State SinkFault) : Nat :=
  let unread := 5 * (archive.size - moment.index)
  match moment.phase with
  | .choosing => unread + 1
  | .reading =>
      if moment.chunkStart < moment.index then unread + moment.held.length + 3 else unread
  | .delivering _ => unread + moment.held.length + 2
  | .ended _ => 0

theorem Sound.stepsLeft_take (hsound : moment.Sound walker sink archive)
    (hphase : moment.phase = .reading) (hindex : moment.index < archive.size) :
    (moment.take (archive.entry moment.index)).stepsLeft archive < moment.stepsLeft archive := by
  obtain ⟨hdelivered, _⟩ : moment.Suits walker sink archive .reading := hphase ▸ hsound.suits
  have hleft : 5 * (archive.size - moment.index) =
      5 * (archive.size - (moment.index + 1)) + 5 := by
    omega
  have hbefore : 5 * (archive.size - (moment.index + 1)) + moment.held.length + 5 ≤
      moment.stepsLeft archive := by
    simp only [stepsLeft, hphase]
    split
    · omega
    · next hbegun =>
        have hempty := hsound.held_eq_nil hdelivered
          (Nat.le_antisymm hsound.started (Nat.not_lt.mp hbegun))
        exact Nat.le_of_eq (by rw [hempty, List.length_nil, hleft, Nat.add_zero])
  refine Nat.lt_of_lt_of_le ?_ hbefore
  have hlength := length_held_take moment (archive.entry moment.index)
  simp only [stepsLeft, take_index, take_chunkStart, Nat.lt_succ_of_le hsound.started, if_true]
  split <;> omega

theorem stepsLeft_closeChunk {fault : Option ArchiveFault}
    (hphase : moment.phase = .delivering fault) (hheld : moment.held = []) :
    (moment.closeChunk fault).stepsLeft archive < moment.stepsLeft archive := by
  cases fault <;> simp only [closeChunk, stepsLeft, hphase, hheld, List.length_nil] <;> omega

theorem stepsLeft_handOn {fault : Option ArchiveFault} {item : HeldClass} {rest : List HeldClass}
    (hphase : moment.phase = .delivering fault) (hheld : moment.held = item :: rest)
    (result : EStateM.Result (WalkFault SinkFault) State WalkStats) :
    (moment.handOn item rest result).stepsLeft archive < moment.stepsLeft archive := by
  cases result <;> simp only [Moment.handOn, stepsLeft, hphase, hheld, List.length_cons] <;> omega

/-- One step comes nearer to the end. -/
theorem Sound.stepsLeft_advance (hsound : moment.Sound walker sink archive)
    (hrunning : ∀ result, moment.phase ≠ .ended result) :
    (walker.advance sink archive moment).stepsLeft archive < moment.stepsLeft archive := by
  cases hphase : moment.phase with
  | choosing =>
      simp only [Walker.advance, hphase]
      split <;> simp [stepsLeft, hphase]
  | reading =>
      simp only [Walker.advance, hphase]
      split
      · next hmore => exact hsound.stepsLeft_take hphase hmore.1
      · next hfull =>
          have hnext := hsound.advance_reading hphase
          simp only [Walker.advance, hphase, if_neg hfull] at hnext
          have hbegun := hnext.suits.1
          simp only [stepsLeft, hphase, if_pos hbegun]
          omega
  | delivering fault =>
      simp only [Walker.advance, hphase]
      cases hheld : moment.held with
      | nil => exact stepsLeft_closeChunk hphase hheld
      | cons item rest => exact stepsLeft_handOn hphase hheld _
  | ended result => exact absurd hphase (hrunning result)

theorem stepsLeft_momentAfter (walker : Walker) (sink : Sink State SinkFault)
    (archive : Archive) (state : State) (count : Nat) :
    (∃ result, (walker.momentAfter sink archive state count).phase = .ended result) ∨
      (walker.momentAfter sink archive state (count + 1)).stepsLeft archive <
        (walker.momentAfter sink archive state count).stepsLeft archive := by
  by_cases hended : ∃ result, (walker.momentAfter sink archive state count).phase = .ended result
  · exact .inl hended
  · exact .inr ((sound_momentAfter walker sink archive state count).stepsLeft_advance
      (fun result hphase => hended ⟨result, hphase⟩))

/-- From any moment on the loop ends within the bound on its steps. -/
theorem exists_ended_of_stepsLeft_le (walker : Walker) (sink : Sink State SinkFault)
    (archive : Archive) (state : State) {bound count : Nat}
    (hbound : (walker.momentAfter sink archive state count).stepsLeft archive ≤ bound) :
    ∃ later ≤ count + bound, ∃ result,
      (walker.momentAfter sink archive state later).phase = .ended result := by
  induction bound generalizing count with
  | zero =>
      rcases stepsLeft_momentAfter walker sink archive state count with hended | hless
      · exact ⟨count, Nat.le_refl count, hended⟩
      · omega
  | succ bound ih =>
      rcases stepsLeft_momentAfter walker sink archive state count with hended | hless
      · exact ⟨count, Nat.le_add_right count _, hended⟩
      · obtain ⟨later, hlater, hended⟩ :=
          ih (Nat.le_of_lt_succ (Nat.lt_of_lt_of_le hless hbound))
        exact ⟨later, by omega, hended⟩

/-- The loop ends. -/
theorem exists_ended (walker : Walker) (sink : Sink State SinkFault) (archive : Archive)
    (state : State) :
    ∃ count ≤ 5 * archive.size + 1, ∃ result,
      (walker.momentAfter sink archive state count).phase = .ended result := by
  obtain ⟨count, hcount, hended⟩ := exists_ended_of_stepsLeft_le walker sink archive state
    (Nat.le_refl ((walker.momentAfter sink archive state 0).stepsLeft archive))
  rw [Nat.zero_add] at hcount
  exact ⟨count, hcount, hended⟩

end Sound

end Moment

end JvmCalls

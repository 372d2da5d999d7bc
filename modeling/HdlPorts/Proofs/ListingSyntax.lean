import HdlPorts.Proofs.ValueTexts
import HdlPorts.Settings

/-! A listing can be read back.

Nothing is escaped in a listing: names have only characters that the punctuation does not have, so
each part ends where the next one has to begin. The width of a value is not always written; it is
that of the output with the name in front of the value, which is listed before.
-/

set_option autoImplicit false

namespace HdlPorts

/-- The text has only characters of a name. -/
def Plain (text : String) : Prop := text.toList.all Settings.isNameChar = true

instance (text : String) : Decidable (Plain text) := inferInstanceAs (Decidable (_ = _))

/-- What a listing tells of an entity: its name, the widths and names of the signals on each side,
and the names of driven outputs with the bits that drive them. -/
@[ext]
structure Contents where
  name : String
  inputs : List (Nat × String)
  outputs : List (Nat × String)
  drives : List (String × List Logic)
  deriving DecidableEq

/-! ## Parts of a text -/

/-- Where a part ends is found by its characters, if what follows begins with another one. -/
theorem eq_of_append {p : Char → Bool} {first second rest others : List Char}
    (clear : first.all p = true) (clear' : second.all p = true) (stops : rest.takeWhile p = [])
    (stops' : others.takeWhile p = []) (same : first ++ rest = second ++ others) :
    first = second ∧ rest = others := by
  have cut := congrArg (List.takeWhile p) same
  rw [List.takeWhile_append_of_pos (List.all_eq_true.mp clear), stops,
    List.takeWhile_append_of_pos (List.all_eq_true.mp clear'), stops', List.append_nil,
    List.append_nil] at cut
  subst cut
  exact ⟨rfl, List.append_cancel_left same⟩

/-! ## Listed signals -/

/-- A signal as it is listed. -/
def signalChars (signal : Nat × String) : List Char :=
  'i' :: (Nat.toDigits 10 signal.1 ++ '$' :: ' ' :: '%' :: signal.2.toList)

/-- The signals after the first one of a list. -/
def moreChars (signals : List (Nat × String)) : List Char :=
  signals.flatMap fun signal => ',' :: ' ' :: signalChars signal

/-- A list of signals between its brackets. -/
def sideChars : List (Nat × String) → List Char
  | [] => []
  | first :: rest => signalChars first ++ moreChars rest

theorem eq_of_signalChars {first second : Nat × String} {rest others : List Char}
    (plain : Plain first.2) (plain' : Plain second.2)
    (stops : rest.takeWhile Settings.isNameChar = [])
    (stops' : others.takeWhile Settings.isNameChar = [])
    (same : signalChars first ++ rest = signalChars second ++ others) :
    first = second ∧ rest = others := by
  simp only [signalChars, List.cons_append, List.append_assoc, List.cons.injEq, true_and] at same
  obtain ⟨width, same⟩ := eq_of_append (toDigits_all _) (toDigits_all _) rfl rfl same
  simp only [List.cons.injEq, true_and] at same
  obtain ⟨name, follows⟩ := eq_of_append plain plain' stops stops' same
  exact ⟨Prod.ext (toDigits_injective width) (String.toList_inj.mp name), follows⟩

theorem moreChars_stops (signals : List (Nat × String)) (rest : List Char) :
    (moreChars signals ++ ')' :: rest).takeWhile Settings.isNameChar = [] := by
  cases signals <;> rfl

theorem eq_of_moreChars {first second : List (Nat × String)} {rest others : List Char}
    (plain : ∀ signal ∈ first, Plain signal.2) (plain' : ∀ signal ∈ second, Plain signal.2)
    (same : moreChars first ++ ')' :: rest = moreChars second ++ ')' :: others) :
    first = second ∧ rest = others := by
  induction first generalizing second with
  | nil =>
    cases second with
    | nil => exact ⟨rfl, (List.cons.inj same).2⟩
    | cons signal signals => cases same
  | cons signal signals ih =>
    cases second with
    | nil => cases same
    | cons signal' signals' =>
      obtain ⟨own, more⟩ := List.forall_mem_cons.mp plain
      obtain ⟨own', more'⟩ := List.forall_mem_cons.mp plain'
      simp only [moreChars, List.flatMap_cons, List.cons_append, List.append_assoc,
        List.cons.injEq, true_and] at same
      obtain ⟨rfl, tail⟩ := eq_of_signalChars own own' (moreChars_stops signals rest)
        (moreChars_stops signals' others) same
      obtain ⟨rfl, follows⟩ := ih more more' tail
      exact ⟨rfl, follows⟩

theorem eq_of_sideChars {first second : List (Nat × String)} {rest others : List Char}
    (plain : ∀ signal ∈ first, Plain signal.2) (plain' : ∀ signal ∈ second, Plain signal.2)
    (same : sideChars first ++ ')' :: rest = sideChars second ++ ')' :: others) :
    first = second ∧ rest = others := by
  cases first with
  | nil =>
    cases second with
    | nil => exact ⟨rfl, (List.cons.inj same).2⟩
    | cons signal signals => cases same
  | cons signal signals =>
    cases second with
    | nil => cases same
    | cons signal' signals' =>
      obtain ⟨own, more⟩ := List.forall_mem_cons.mp plain
      obtain ⟨own', more'⟩ := List.forall_mem_cons.mp plain'
      simp only [sideChars, List.append_assoc] at same
      obtain ⟨rfl, tail⟩ := eq_of_signalChars own own' (moreChars_stops signals rest)
        (moreChars_stops signals' others) same
      obtain ⟨rfl, follows⟩ := eq_of_moreChars more more' tail
      exact ⟨rfl, follows⟩

/-! ## Drives -/

/-- The text from the first drive to the end of a listing. -/
inductive WritesDrives : List (String × List Logic) → List Char → Prop where
  | done {text : List Char} : text = "\n\x7d".toList → WritesDrives [] text
  | drive {name : String} {bits : List Logic} {value rest text : List Char}
      {drives : List (String × List Logic)} :
      LogicVector.Writes bits value → WritesDrives drives rest →
      text = "\n    drv %".toList ++ (name.toList ++ ' ' :: (value ++ rest)) →
      WritesDrives ((name, bits) :: drives) text

theorem WritesDrives.stops {drives : List (String × List Logic)} {text : List Char}
    (writes : WritesDrives drives text) : text.takeWhile (· != '\n') = [] := by
  cases writes with
  | done written =>
    rw [written]
    rfl
  | drive _ _ written =>
    rw [written]
    rfl

/-- Drives can be read back if the widths of their values are known from their names. -/
theorem WritesDrives.eq {first second : List (String × List Logic)} {text : List Char}
    (writes : WritesDrives first text) (writes' : WritesDrives second text)
    (plain : ∀ drive ∈ first, Plain drive.1) (plain' : ∀ drive ∈ second, Plain drive.1)
    (widths : ∀ drive ∈ first, ∀ other ∈ second, drive.1 = other.1 →
      drive.2.length = other.2.length) : first = second := by
  induction writes generalizing second with
  | done written =>
    subst written
    cases writes' with
    | done _ => rfl
    | drive _ _ same => cases same
  | @drive name bits value rest text drives own further written ih =>
    subst written
    cases writes' with
    | done same => cases same
    | @drive name' bits' value' rest' _ drives' own' further' same =>
      obtain ⟨named, others⟩ := List.forall_mem_cons.mp plain
      obtain ⟨named', others'⟩ := List.forall_mem_cons.mp plain'
      obtain ⟨spelled, tail⟩ := eq_of_append named named' rfl rfl (List.append_cancel_left same)
      obtain ⟨rfl, rfl⟩ := eq_of_append own.single_line own'.single_line further.stops
        further'.stops (List.cons.inj tail).2
      obtain rfl := String.toList_inj.mp spelled
      rw [own.eq own' (widths _ List.mem_cons_self _ List.mem_cons_self rfl),
        ih further' others others' fun drive member other member' =>
          widths drive (List.mem_cons_of_mem _ member) other (List.mem_cons_of_mem _ member')]

/-! ## Whole listings -/

namespace Contents

variable {first second : Contents} {text : List Char}

/-- The text is a listing with these contents. -/
def Writes (contents : Contents) (text : List Char) : Prop :=
  ∃ drives, WritesDrives contents.drives drives ∧
    text = "entity @".toList ++ (contents.name.toList ++ " (".toList ++
      (sideChars contents.inputs ++ ')' :: (" (".toList ++
        (sideChars contents.outputs ++ ')' :: (" \x7b".toList ++ drives)))))

/-- Names are plain, they tell outputs apart, and values are as wide as the outputs they drive. -/
structure Sound (contents : Contents) : Prop where
  name : Plain contents.name
  inputs : ∀ signal ∈ contents.inputs, Plain signal.2
  outputs : ∀ signal ∈ contents.outputs, Plain signal.2
  distinct : ∀ signal ∈ contents.outputs, ∀ other ∈ contents.outputs, signal.2 = other.2 →
    signal = other
  driven : ∀ drive ∈ contents.drives, (drive.2.length, drive.1) ∈ contents.outputs

theorem Sound.spelled (sound : first.Sound) : ∀ drive ∈ first.drives, Plain drive.1 :=
  fun drive member => sound.outputs _ (sound.driven drive member)

theorem Writes.eq (writes : first.Writes text) (writes' : second.Writes text)
    (sound : first.Sound) (sound' : second.Sound) : first = second := by
  obtain ⟨rest, own, rfl⟩ := writes
  obtain ⟨rest', own', same⟩ := writes'
  simp only [List.append_assoc, List.append_cancel_left_eq] at same
  obtain ⟨name, afterName⟩ := eq_of_append sound.name sound'.name rfl rfl same
  obtain ⟨inputs, afterInputs⟩ :=
    eq_of_sideChars sound.inputs sound'.inputs (List.append_cancel_left afterName)
  obtain ⟨outputs, afterOutputs⟩ :=
    eq_of_sideChars sound.outputs sound'.outputs (List.append_cancel_left afterInputs)
  obtain rfl := List.append_cancel_left afterOutputs
  have widths : ∀ drive ∈ first.drives, ∀ other ∈ second.drives, drive.1 = other.1 →
      drive.2.length = other.2.length := by
    intro drive member other member' same
    have driven := sound'.driven other member'
    rw [← outputs] at driven
    exact congrArg Prod.fst (sound.distinct _ (sound.driven drive member) _ driven same)
  have drives := own.eq own' sound.spelled sound'.spelled widths
  exact Contents.ext (String.toList_inj.mp name) inputs outputs drives

end Contents

end HdlPorts

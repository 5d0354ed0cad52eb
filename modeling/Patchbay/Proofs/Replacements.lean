import Mathlib.Data.List.Forall2
import Patchbay.Proofs.Ports
/-!
Replaced inputs conserve their sources.

The old ports and the new names are walked through in step, and the ports
that are left when the names end are drained behind them.  The outcome does
not tell which of the two lists was longer: a port stays where its name
stays, every other one is fresh, and what a port that does not stay had for a
source is reported.

The report is told by places.  The places that lose a source are listed in
rising order (`vacated`), and the report has one entry for each of them
(`reports_lost`), so that no source is told twice and none is forgotten.
-/

namespace Patchbay

namespace Directory

/-! ## Places that lose a source -/

/-- The port at a place has a source, and its name does not stay there. -/
def vacates (ps : List InputPort) (names : List String) (i : Nat) : Bool :=
  ps[i]?.any fun p => p.isConnected && names[i]? != some p.name

/-- The places that lose a source under new names. -/
def vacated (ps : List InputPort) (names : List String) : List Nat :=
  (List.range ps.length).filter (vacates ps names)

/-- The entry tells the name and the source of the port at a place. -/
def Reports (ps : List InputPort) (i : Nat) (x : Dropped) : Prop :=
  ∃ p, ps[i]? = some p ∧ p.name = x.name ∧ p.source = some x.address

theorem pairwise_vacated (ps : List InputPort) (names : List String) :
    (vacated ps names).Pairwise (· < ·) :=
  List.pairwise_lt_range.filter _

theorem vacates_iff {ps : List InputPort} {names : List String} {i : Nat} :
    vacates ps names i = true ↔
      ∃ p, ps[i]? = some p ∧ p.isConnected = true ∧ names[i]? ≠ some p.name := by
  rw [vacates]
  cases ps[i]? with
  | none => simp
  | some p => simp [Bool.and_eq_true, bne_iff_ne]

theorem mem_vacated {ps : List InputPort} {names : List String} {i : Nat} :
    i ∈ vacated ps names ↔
      ∃ p, ps[i]? = some p ∧ p.isConnected = true ∧ names[i]? ≠ some p.name := by
  rw [vacated, List.mem_filter, List.mem_range, vacates_iff]
  constructor
  · rintro ⟨-, h⟩
    exact h
  · rintro ⟨p, hp, h⟩
    exact ⟨(List.getElem?_eq_some_iff.mp hp).1, p, hp, h⟩

/-! ## The report, port by port -/

theorem vacated_cons (p : InputPort) (ps : List InputPort) (names : List String) :
    vacated (p :: ps) names =
      (if p.isConnected = true ∧ names.head? ≠ some p.name then [0] else []) ++
        (vacated ps names.tail).map Nat.succ := by
  have hrest : vacates (p :: ps) names ∘ Nat.succ = vacates ps names.tail := by
    funext i
    simp only [Function.comp_apply, vacates, List.getElem?_cons_succ, List.getElem?_tail]
  have hfirst : vacates (p :: ps) names 0 = true ↔
      p.isConnected = true ∧ names.head? ≠ some p.name := by
    simp [vacates, List.head?_eq_getElem?]
  rw [vacated, List.length_cons, List.range_succ_eq_map, List.filter_cons, List.filter_map, hrest]
  simp only [hfirst]
  split <;> rfl

theorem droppedBy_of_source {p : InputPort} {a : Address} (h : p.source = some a) :
    droppedBy p = [⟨p.name, a⟩] := by
  rw [droppedBy, h]

theorem droppedBy_of_free {p : InputPort} (h : p.source = none) : droppedBy p = [] := by
  rw [droppedBy, h]

/-- The report has one entry for each place that loses a source, in the order of the places. -/
theorem reports_lost (ps : List InputPort) (names : List String) :
    List.Forall₂ (Reports ps) (vacated ps names) (lost ps names) := by
  induction ps generalizing names with
  | nil => exact List.Forall₂.nil
  | cons p ps ih =>
      -- The first port stands at place zero, and those behind it one place further than among
      -- themselves.
      rw [vacated_cons, lost_cons]
      refine List.rel_append ?_ (List.forall₂_map_left_iff.mpr (ih names.tail))
      by_cases hname : names.head? = some p.name
      · rw [if_neg (fun h => h.2 hname), if_pos hname]
        exact List.Forall₂.nil
      · rw [if_neg hname]
        cases hsource : p.source with
        | none =>
            have hfree : ¬p.isConnected = true := by simp [InputPort.isConnected, hsource]
            rw [droppedBy_of_free hsource, if_neg fun h => hfree h.1]
            exact List.Forall₂.nil
        | some a =>
            have hattached : p.isConnected = true := by simp [InputPort.isConnected, hsource]
            rw [droppedBy_of_source hsource, if_pos ⟨hattached, hname⟩]
            exact List.Forall₂.cons ⟨p, rfl, rfl, hsource⟩ List.Forall₂.nil

/-! ## Conservation -/

/-- The sources of ports, under the names of the ports. -/
def attachments (ps : List InputPort) : List Dropped := ps.flatMap droppedBy

theorem attachments_fresh (names : List String) :
    attachments (names.map InputPort.fresh) = [] := by
  rw [attachments, List.flatMap_map]
  exact List.flatMap_eq_nil_iff.mpr fun _ _ => rfl

theorem renamed_nil (names : List String) : renamed [] names = names.map InputPort.fresh := by
  induction names with
  | nil => rfl
  | cons name names ih => rw [renamed, ih, List.map_cons]

theorem attachments_renamed_cons (p : InputPort) (ps : List InputPort) (names : List String) :
    attachments (renamed (p :: ps) names) =
      (if names.head? = some p.name then droppedBy p else []) ++
        attachments (renamed ps names.tail) := by
  cases names with
  | nil =>
      cases ps <;> rfl
  | cons name names =>
      rw [renamed, attachments, List.flatMap_cons, List.head?_cons, List.tail_cons]
      by_cases hname : p.name = name
      · rw [if_pos hname, if_pos (congrArg some hname.symm)]
        rfl
      · rw [if_neg hname, if_neg fun h => hname (Option.some.inj h).symm]
        rfl

/-- Every source is kept under its name or reported, and only once. -/
theorem perm_attachments (ps : List InputPort) (names : List String) :
    (attachments ps).Perm (attachments (renamed ps names) ++ lost ps names) := by
  induction ps generalizing names with
  | nil =>
      rw [renamed_nil, attachments_fresh]
      exact List.Perm.nil
  | cons p ps ih =>
      rw [attachments_renamed_cons, lost_cons]
      have hrest := (ih names.tail).append_left (droppedBy p)
      by_cases hname : names.head? = some p.name
      · rw [if_pos hname, if_pos hname, List.nil_append, List.append_assoc]
        exact hrest
      · rw [if_neg hname, if_neg hname, List.nil_append]
        exact hrest.trans (List.perm_append_comm_assoc _ _ _)

/-! ## The same names once more -/

theorem renamed_names (ps : List InputPort) : renamed ps (ps.map InputPort.name) = ps := by
  induction ps with
  | nil => rfl
  | cons p ps ih => rw [List.map_cons, renamed, if_pos rfl, ih]

theorem lost_names (ps : List InputPort) : lost ps (ps.map InputPort.name) = [] := by
  induction ps with
  | nil => rfl
  | cons p ps ih => rw [List.map_cons, lost, if_pos rfl, ih, List.nil_append]

/-- Under the names that the inputs have nothing happens but that the labels are measured. -/
theorem setInputs_inputNames (d : Directory) : d.setInputs d.inputNames = (d.measured, []) := by
  rw [setInputs, inputNames, renamed_names, lost_names]

/-! ## Place by place -/

/-- A port stays at its place exactly where its name does. -/
theorem getElem?_renamed_eq_old {ps : List InputPort} {i : Nat} {p : InputPort}
    (hp : ps[i]? = some p) (names : List String) :
    (renamed ps names)[i]? = some p ↔ names[i]? = some p.name := by
  rw [getElem?_renamed, hp]
  constructor
  · intro h
    obtain ⟨name, hname, hport⟩ := Option.map_eq_some_iff.mp h
    have hsame : p.name = name := by
      rw [← name_underName (some p) name, hport]
    rw [hname, hsame]
  · intro h
    rw [h]
    exact congrArg some (if_pos rfl)

/-- Where another name stood, or none, the port is a fresh one. -/
theorem getElem?_renamed_of_ne {ps : List InputPort} {names : List String} {i : Nat} {name : String}
    (hname : names[i]? = some name) (hold : (ps.map InputPort.name)[i]? ≠ some name) :
    (renamed ps names)[i]? = some (InputPort.fresh name) := by
  rw [getElem?_renamed, hname]
  rw [List.getElem?_map] at hold
  cases hp : ps[i]? with
  | none => rfl
  | some p =>
      rw [hp] at hold
      exact congrArg some (if_neg fun h => hold (congrArg some h))

/-! ## Replacing -/

/-- What replacing the inputs of `d` comes to: the directory behind it and the report.

A port is kept with its source and its kinds exactly where its name stays; everywhere else there
is a port that reads from nowhere and accepts nothing.  The report tells, place by place, the
sources of all other ports that had one, under the old names. -/
structure Replaced (d : Directory) (names : List String) (d' : Directory)
    (report : List Dropped) : Prop where
  inputNames : d'.inputNames = names
  kept {i : Nat} {p : InputPort} :
    d.inputs[i]? = some p → (d'.inputs[i]? = some p ↔ names[i]? = some p.name)
  blank {i : Nat} {name : String} :
    names[i]? = some name → d.inputNames[i]? ≠ some name →
    d'.inputs[i]? = some ⟨name, KindSet.none, none⟩
  told : ∃ places : List Nat, places.Pairwise (· < ·) ∧
    (∀ i, i ∈ places ↔
      ∃ p, d.inputs[i]? = some p ∧ p.isConnected = true ∧ names[i]? ≠ some p.name) ∧
    List.Forall₂ (Reports d.inputs) places report
  conserved : (attachments d.inputs).Perm (attachments d'.inputs ++ report)
  outputs : d'.outputs = d.outputs
  inputPadding : d'.inputPadding = (new names d.outputNames).inputPadding
  outputPadding : d'.outputPadding = (new names d.outputNames).outputPadding
  again : d'.setInputs names = (d', [])

/-- Replacing the inputs conserves the sources: each is kept under its name or reported. -/
theorem replaced_setInputs (d : Directory) (names : List String) :
    d.Replaced names (d.setInputs names).1 (d.setInputs names).2 := by
  have hnames : (d.setInputs names).1.inputNames = names := inputNames_setInputs d names
  constructor
  case inputNames => exact hnames
  case kept =>
    intro i p hp
    exact getElem?_renamed_eq_old hp names
  case blank =>
    intro i name hname hold
    exact getElem?_renamed_of_ne hname hold
  case told =>
    exact ⟨vacated d.inputs names, pairwise_vacated _ _, fun _ => mem_vacated, reports_lost _ _⟩
  case conserved => exact perm_attachments d.inputs names
  case outputs => rfl
  case inputPadding =>
    -- Both are measured from the same names.
    exact congrArg padding (hnames.trans (inputNames_new names d.outputNames).symm)
  case outputPadding => exact congrArg padding (outputNames_new names d.outputNames).symm
  case again =>
    have hagain := setInputs_inputNames (d.setInputs names).1
    rwa [hnames] at hagain

/-- Of three attached inputs the first keeps its name, the second loses its own to the third, and
the third falls away. -/
example (a b c : Address) :
    let attached (name : String) (a : Address) : InputPort := ⟨name, KindSet.none, some a⟩
    let d : Directory :=
      ⟨[attached "x" a, attached "y" b, attached "z" c], [], Single.zero, Single.zero⟩
    (d.setInputs ["x", "z"]).1.inputs = [attached "x" a, InputPort.fresh "z"] ∧
      (d.setInputs ["x", "z"]).2 = [⟨"y", b⟩, ⟨"z", c⟩] :=
  ⟨rfl, rfl⟩

end Directory

end Patchbay

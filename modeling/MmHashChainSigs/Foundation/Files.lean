import Mathlib

/-!
# Files under names

Effects on a flat directory, and parts of a system that share one.  A file that
is replaced by a rename is the old one or the new one at every moment, and
parts with disjoint names do not see each other under any interleaving.
-/

namespace MmHashChainSigs.Foundation

abbrev Files (ν β : Type) := ν → Option β

inductive FileEffect (ν β : Type) where
  | write (name : ν) (content : β)
  | unlink (name : ν)
  | rename (source target : ν)
  deriving DecidableEq, Repr

section Effects

variable {ν β : Type} [DecidableEq ν]

def Files.set (files : Files ν β) (name : ν) (content : Option β) :
    Files ν β := Function.update files name content

/-- A rename without a source, or onto the source itself, changes nothing. -/
def Files.apply (files : Files ν β) : FileEffect ν β → Files ν β
  | .write name content => files.set name (some content)
  | .unlink name => files.set name none
  | .rename source target =>
      match files source with
      | none => files
      | some content =>
          if source = target then files
          else (files.set target (some content)).set source none

def Files.after (files : Files ν β) (effects : List (FileEffect ν β)) :
    Files ν β := effects.foldl Files.apply files

def FileEffect.names : FileEffect ν β → List ν
  | .write name _ => [name]
  | .unlink name => [name]
  | .rename source target => [source, target]

@[simp] theorem Files.set_self (files : Files ν β) (name : ν)
    (content : Option β) : files.set name content name = content :=
  Function.update_self _ _ _

@[simp] theorem Files.set_of_ne {name other : ν} (h : other ≠ name)
    (files : Files ν β) (content : Option β) :
    files.set name content other = files other :=
  Function.update_of_ne h _ _

theorem Files.set_congr {own : Set ν} {files files' : Files ν β}
    (h : Set.EqOn files files' own) (name : ν) (content : Option β) :
    Set.EqOn (files.set name content) (files'.set name content) own := by
  intro other hother
  by_cases hname : other = name
  · rw [hname, Files.set_self, Files.set_self]
  · rw [Files.set_of_ne hname, Files.set_of_ne hname]
    exact h hother

@[simp] theorem Files.after_nil (files : Files ν β) :
    files.after [] = files := rfl

theorem Files.after_cons (files : Files ν β) (effect : FileEffect ν β)
    (effects : List (FileEffect ν β)) :
    files.after (effect :: effects) = (files.apply effect).after effects := rfl

theorem Files.after_append (files : Files ν β)
    (effects more : List (FileEffect ν β)) :
    files.after (effects ++ more) = (files.after effects).after more :=
  List.foldl_append

/-! ## Other names -/

theorem Files.apply_frame {effect : FileEffect ν β} {name : ν}
    (h : name ∉ effect.names) (files : Files ν β) :
    files.apply effect name = files name := by
  cases effect with
  | write other content =>
      exact Files.set_of_ne (by simpa [FileEffect.names] using h) _ _
  | unlink other =>
      exact Files.set_of_ne (by simpa [FileEffect.names] using h) _ _
  | rename source target =>
      simp only [FileEffect.names, List.mem_cons, List.not_mem_nil, or_false,
        not_or] at h
      simp only [Files.apply]
      cases hsource : files source with
      | none => rfl
      | some content =>
          dsimp only
          split_ifs
          · rfl
          · rw [Files.set_of_ne h.1, Files.set_of_ne h.2]

theorem Files.after_frame {effects : List (FileEffect ν β)} {name : ν}
    (h : ∀ effect ∈ effects, name ∉ effect.names) (files : Files ν β) :
    files.after effects name = files name := by
  induction effects generalizing files with
  | nil => rfl
  | cons effect effects ih =>
      rw [Files.after_cons, ih (fun other hother => h other (by simp [hother])),
        Files.apply_frame (h effect (by simp))]

theorem Files.apply_congr {own : Set ν} {files files' : Files ν β}
    (h : Set.EqOn files files' own) {effect : FileEffect ν β}
    (hown : ∀ name ∈ effect.names, name ∈ own) :
    Set.EqOn (files.apply effect) (files'.apply effect) own := by
  cases effect with
  | write name content => exact Files.set_congr h name _
  | unlink name => exact Files.set_congr h name _
  | rename source target =>
      have hsource : files source = files' source :=
        h (hown source (by simp [FileEffect.names]))
      simp only [Files.apply, hsource]
      cases hcontent : files' source with
      | none => exact h
      | some content =>
          dsimp only
          split_ifs
          · exact h
          · exact Files.set_congr (Files.set_congr h _ _) _ _

theorem Files.after_congr {own : Set ν} {effects : List (FileEffect ν β)}
    (hown : ∀ effect ∈ effects, ∀ name ∈ effect.names, name ∈ own)
    {files files' : Files ν β} (h : Set.EqOn files files' own) :
    Set.EqOn (files.after effects) (files'.after effects) own := by
  induction effects generalizing files files' with
  | nil => exact h
  | cons effect effects ih =>
      apply ih fun other hother => hown other (by simp [hother])
      exact Files.apply_congr h (hown effect (by simp))

/-! ## Replacing a file -/

def OnlyOn (draft : ν) (effects : List (FileEffect ν β)) : Prop :=
  ∀ effect ∈ effects, effect.names = [draft]

theorem OnlyOn.keeps {draft name : ν} {effects : List (FileEffect ν β)}
    (h : OnlyOn draft effects) (hne : name ≠ draft) (files : Files ν β) :
    files.after effects name = files name := by
  apply Files.after_frame
  intro effect heffect
  rw [h effect heffect]
  simpa using hne

def replaceFile (drafts : List (FileEffect ν β)) (draft target : ν)
    (content : β) : List (FileEffect ν β) :=
  drafts ++ [.write draft content, .rename draft target]

theorem Files.after_replaceFile {draft target : ν}
    {drafts : List (FileEffect ν β)} (hne : target ≠ draft)
    (files : Files ν β) (content : β) :
    files.after (replaceFile drafts draft target content) target =
      some content := by
  rw [replaceFile, Files.after_append]
  simp only [Files.after_cons, Files.after_nil, Files.apply, Files.set_self,
    if_neg (Ne.symm hne), Files.set_of_ne hne]

/-- Wherever the replacement is cut off, the target is still the old file. -/
theorem Files.after_replaceFile_cut {draft target : ν}
    {drafts : List (FileEffect ν β)} (hdrafts : OnlyOn draft drafts)
    (hne : target ≠ draft) (files : Files ν β) (content : β) {n : Nat}
    (hcut : n < (replaceFile drafts draft target content).length) :
    files.after ((replaceFile drafts draft target content).take n) target =
      files target := by
  have hlength : n ≤ (drafts ++ [FileEffect.write draft content]).length := by
    simp only [replaceFile, List.length_append, List.length_cons,
      List.length_nil] at hcut ⊢
    omega
  have hsplit : replaceFile drafts draft target content =
      (drafts ++ [.write draft content]) ++ [.rename draft target] := by
    simp [replaceFile]
  rw [hsplit, List.take_append_of_le_length hlength]
  apply OnlyOn.keeps _ hne
  intro effect heffect
  rcases List.mem_append.mp (List.mem_of_mem_take heffect) with hmem | hmem
  · exact hdrafts effect hmem
  · rw [List.mem_singleton.mp hmem]
    rfl

end Effects

/-! ## Parts that share files -/

section Parts

variable {ι σ κ ν α : Type}

/--
While the invariant holds, a step changes the part's own files only, and looks
at no others.
-/
structure LocalTo (inv : σ → Prop) (own : Set ν)
    (step : σ → (ν → α) → κ → σ × (ν → α)) : Prop where
  keeps : ∀ part files op, inv part → inv (step part files op).1
  frame : ∀ part files op name, inv part → name ∉ own →
    (step part files op).2 name = files name
  congr : ∀ part files files' op, inv part → Set.EqOn files files' own →
    (step part files op).1 = (step part files' op).1 ∧
      Set.EqOn (step part files op).2 (step part files' op).2 own

inductive PartEvent (ι κ : Type) where
  | one (i : ι) (op : κ)
  | all (op : ι → κ)

structure Parts (ι σ ν α : Type) where
  part : ι → σ
  files : ν → α

def PartEvent.of [DecidableEq ι] (i : ι) : PartEvent ι κ → Option κ
  | .one j op => if j = i then some op else none
  | .all op => some (op i)

def runPart (step : σ → (ν → α) → κ → σ × (ν → α))
    (state : σ × (ν → α)) (ops : List κ) : σ × (ν → α) :=
  ops.foldl (fun state op => step state.1 state.2 op) state

variable [DecidableEq ι]

def Parts.step (step : ι → σ → (ν → α) → κ → σ × (ν → α))
    (parts : Parts ι σ ν α) : PartEvent ι κ → Parts ι σ ν α
  | .one i op =>
      let next := step i (parts.part i) parts.files op
      ⟨Function.update parts.part i next.1, next.2⟩
  | .all op =>
      ⟨fun i => (step i (parts.part i) parts.files (op i)).1, parts.files⟩

def Parts.run (step : ι → σ → (ν → α) → κ → σ × (ν → α))
    (parts : Parts ι σ ν α) (events : List (PartEvent ι κ)) :
    Parts ι σ ν α := events.foldl (Parts.step step) parts

structure SameFor (inv : σ → Prop) (own : Set ν) (i : ι)
    (parts : Parts ι σ ν α) (state : σ × (ν → α)) : Prop where
  part : parts.part i = state.1
  files : Set.EqOn parts.files state.2 own
  inv : inv state.1

def Fileless (step : ι → σ → (ν → α) → κ → σ × (ν → α)) : PartEvent ι κ → Prop
  | .one _ _ => True
  | .all op => ∀ i part files, (step i part files (op i)).2 = files

variable {inv : ι → σ → Prop} {own : ι → Set ν}
  {step : ι → σ → (ν → α) → κ → σ × (ν → α)}

theorem SameFor.after (hlocal : ∀ i, LocalTo (inv i) (own i) (step i))
    (hdisjoint : ∀ i j, i ≠ j → Disjoint (own i) (own j)) {i : ι}
    {parts : Parts ι σ ν α} {state : σ × (ν → α)}
    (hinv : ∀ j, inv j (parts.part j))
    (h : SameFor (inv i) (own i) i parts state) {event : PartEvent ι κ}
    (hquiet : Fileless step event) :
    SameFor (inv i) (own i) i (parts.step step event)
      (runPart (step i) state (event.of i).toList) := by
  have hpart := h.part
  cases event with
  | one j op =>
      by_cases hj : j = i
      · subst hj
        obtain ⟨hsame, hown⟩ :=
          (hlocal j).congr (parts.part j) _ _ op (hinv j) h.files
        simp only [PartEvent.of, if_true, Option.toList_some, runPart,
          List.foldl_cons, List.foldl_nil, Parts.step, ← hpart]
        constructor
        · exact (Function.update_self _ _ _).trans hsame
        · exact hown
        · exact (hlocal j).keeps _ _ _ (hinv j)
      · simp only [PartEvent.of, if_neg hj, Option.toList_none, runPart,
          List.foldl_nil, Parts.step]
        constructor
        · exact (Function.update_of_ne (Ne.symm hj) _ _).trans hpart
        · intro name hname
          have hother : name ∉ own j :=
            Set.disjoint_right.mp (hdisjoint j i hj) hname
          exact ((hlocal j).frame _ _ _ _ (hinv j) hother).trans
            (h.files hname)
        · exact h.inv
  | all op =>
      obtain ⟨hsame, -⟩ :=
        (hlocal i).congr (parts.part i) _ _ (op i) (hinv i) h.files
      simp only [PartEvent.of, Option.toList_some, runPart, List.foldl_cons,
        List.foldl_nil, Parts.step, ← hpart]
      constructor
      · exact hsame
      · rw [hquiet i (parts.part i) state.2]
        exact h.files
      · exact (hlocal i).keeps _ _ _ (hinv i)

theorem Parts.step_inv (hlocal : ∀ i, LocalTo (inv i) (own i) (step i))
    {parts : Parts ι σ ν α} (hinv : ∀ i, inv i (parts.part i))
    (event : PartEvent ι κ) (i : ι) :
    inv i ((parts.step step event).part i) := by
  cases event with
  | one j op =>
      by_cases hj : i = j
      · subst hj
        simp only [Parts.step, Function.update_self]
        exact (hlocal i).keeps _ _ _ (hinv i)
      · simp only [Parts.step, Function.update_of_ne hj]
        exact hinv i
  | all op => exact (hlocal i).keeps _ _ _ (hinv i)

/-- Under any interleaving a part runs as it does with its own operations. -/
theorem Parts.run_of (hlocal : ∀ i, LocalTo (inv i) (own i) (step i))
    (hdisjoint : ∀ i j, i ≠ j → Disjoint (own i) (own j))
    {parts : Parts ι σ ν α} (hinv : ∀ i, inv i (parts.part i))
    {events : List (PartEvent ι κ)}
    (hquiet : ∀ event ∈ events, Fileless step event) (i : ι) :
    SameFor (inv i) (own i) i (parts.run step events)
      (runPart (step i) (parts.part i, parts.files)
        (events.filterMap (PartEvent.of i))) := by
  have hrun : (∀ j, inv j ((parts.run step events).part j)) ∧
      SameFor (inv i) (own i) i (parts.run step events)
        (runPart (step i) (parts.part i, parts.files)
          (events.filterMap (PartEvent.of i))) := by
    induction events using List.reverseRecOn with
    | nil => exact ⟨hinv, rfl, fun _ _ => rfl, hinv i⟩
    | append_singleton events event ih =>
        obtain ⟨hbefore, hsame⟩ := ih fun other hother =>
          hquiet other (by simp [hother])
        have hlast : ([event].filterMap (PartEvent.of i) : List κ) =
            (event.of i).toList := by
          cases hof : event.of i <;> simp [hof]
        rw [Parts.run, List.foldl_append, List.filterMap_append, runPart,
          List.foldl_append, hlast]
        constructor
        · exact Parts.step_inv hlocal hbefore event
        · exact hsame.after hlocal hdisjoint hbefore (hquiet event (by simp))
  exact hrun.2

end Parts

/-! ## Names of one file -/

section Named

variable {σ κ ν φ α : Type} [DecidableEq φ] {resolve : ν → φ} {names : List ν}

/-- What the view has under the names is put into the files behind them. -/
def writeBack (resolve : ν → φ) (names : List ν) (view : ν → α)
    (files : φ → α) : φ → α :=
  names.foldl (fun files name =>
    Function.update files (resolve name) (view name)) files

/-- A step on names, taken on the files behind them. -/
def onFiles (resolve : ν → φ) (names : List ν)
    (step : σ → (ν → α) → κ → σ × (ν → α)) (part : σ) (files : φ → α)
    (op : κ) : σ × (φ → α) :=
  let next := step part (files ∘ resolve) op
  (next.1, writeBack resolve names next.2 files)

def Resolves (resolve : ν → φ) (names : List ν) : Prop :=
  ∀ name ∈ names, ∀ other ∈ names, resolve name = resolve other → name = other

theorem writeBack_of_ne {file : φ} (h : ∀ name ∈ names, resolve name ≠ file)
    (view : ν → α) (files : φ → α) :
    writeBack resolve names view files file = files file := by
  induction names generalizing files with
  | nil => rfl
  | cons name names ih =>
      rw [List.forall_mem_cons] at h
      exact (ih h.2 _).trans (Function.update_of_ne (Ne.symm h.1) _ _)

theorem writeBack_of_mem (hnames : Resolves resolve names) {name : ν}
    (h : name ∈ names) (view : ν → α) (files : φ → α) :
    writeBack resolve names view files (resolve name) = view name := by
  induction names generalizing files with
  | nil => cases h
  | cons first names ih =>
      have hrest : Resolves resolve names := fun p hp q hq =>
        hnames p (List.mem_cons_of_mem _ hp) q (List.mem_cons_of_mem _ hq)
      by_cases hlater : name ∈ names
      · exact ih hrest hlater _
      · obtain rfl := (List.mem_cons.mp h).resolve_right hlater
        have hothers : ∀ other ∈ names, resolve other ≠ resolve name := by
          intro other hother hsame
          apply hlater
          rwa [← hnames other (List.mem_cons_of_mem _ hother) name
            List.mem_cons_self hsame]
        exact (writeBack_of_ne hothers view _).trans
          (Function.update_self _ _ _)

theorem writeBack_self (files : φ → α) :
    writeBack resolve names (files ∘ resolve) files = files := by
  induction names with
  | nil => rfl
  | cons name names ih =>
      rw [writeBack, List.foldl_cons, Function.comp_apply,
        Function.update_eq_self]
      exact ih

variable {inv : σ → Prop} {step : σ → (ν → α) → κ → σ × (ν → α)}

theorem LocalTo.onFiles (h : LocalTo inv {name | name ∈ names} step)
    (hnames : Resolves resolve names) :
    LocalTo inv (resolve '' {name | name ∈ names})
      (onFiles resolve names step) where
  keeps part files op hinv := h.keeps part _ op hinv
  frame := by
    intro part files op file _ hfile
    apply writeBack_of_ne
    rintro name hname rfl
    exact hfile ⟨name, hname, rfl⟩
  congr := by
    intro part files files' op hinv hfiles
    have hviews : Set.EqOn (files ∘ resolve) (files' ∘ resolve)
        {name | name ∈ names} := fun name hname => hfiles ⟨name, hname, rfl⟩
    obtain ⟨hpart, hnext⟩ := h.congr part _ _ op hinv hviews
    refine ⟨hpart, ?_⟩
    rintro _ ⟨name, hname, rfl⟩
    change writeBack _ _ _ _ _ = writeBack _ _ _ _ _
    rw [writeBack_of_mem hnames hname, writeBack_of_mem hnames hname]
    exact hnext hname

/-- On files of its own a part runs as it does on their names. -/
theorem runPart_onFiles (h : LocalTo inv {name | name ∈ names} step)
    (hnames : Resolves resolve names) {part : σ} (hinv : inv part)
    (files : φ → α) (ops : List κ) :
    let state := runPart (onFiles resolve names step) (part, files) ops
    let named := runPart step (part, files ∘ resolve) ops
    inv named.1 ∧ state.1 = named.1 ∧
      Set.EqOn (state.2 ∘ resolve) named.2 {name | name ∈ names} := by
  induction ops using List.reverseRecOn with
  | nil => exact ⟨hinv, rfl, fun _ _ => rfl⟩
  | append_singleton ops op ih =>
      obtain ⟨hbefore, hpart, hfiles⟩ := ih
      simp only [runPart, List.foldl_append, List.foldl_cons,
        List.foldl_nil] at hbefore hpart hfiles ⊢
      obtain ⟨hsame, hnext⟩ := h.congr _ _ _ op hbefore hfiles
      refine ⟨h.keeps _ _ _ hbefore, ?_, ?_⟩
      · rw [← hsame, ← hpart]
        rfl
      · intro name hname
        refine (writeBack_of_mem hnames hname _ _).trans ?_
        rw [hpart]
        exact hnext hname

end Named

end MmHashChainSigs.Foundation

import ShoppingList.Repository
import ShoppingList.Lib.Lists
import ShoppingList.Lib.Runs

/-!
# Table cells

A cell is recycled with the picture it showed and the downloads it waits for.
`cellForRowAt` writes both labels for every item and calls `setImage` only for
an item with a picture. What `URL(string:)` reads and what a URL holds are
parameters, `url` and `contents`.
-/

namespace ShoppingList

structure Cell (URL Image : Type) where
  nameLabel : Text := ['L', 'a', 'b', 'e', 'l']
  amountLabel : Text := ['L', 'a', 'b', 'e', 'l']
  image : Option Image := none
  /-- The URL whose download the image view will show. -/
  bound : Option URL := none
  downloads : List URL := []

variable {URL Image : Type}

namespace Cell

/-- `kf.setImage(with:)` -/
def setImage (url : Option URL) (cell : Cell URL Image) : Cell URL Image :=
  { cell with image := none, bound := url, downloads := cell.downloads ++ url.toList }

def amountText (amount : Text) : Text :=
  if amount ≠ [] then ['A', 'm', 'o', 'u', 'n', 't', ':', ' '] ++ amount else []

def configure (url : Text → Option URL) (item : Item) (cell : Cell URL Image) : Cell URL Image :=
  let urlKey := item.picture
  let cell := if urlKey ≠ noPicture then cell.setImage (url urlKey) else cell
  { cell with nameLabel := item.name, amountLabel := amountText item.amount }

inductive Event where
  | configured (item : Item)
  | downloaded (i : Nat)
  deriving DecidableEq

def Event.isDownload : Event → Bool
  | .configured _ => false
  | .downloaded _ => true

def step [DecidableEq URL] (url : Text → Option URL) (contents : URL → Image) (cell : Cell URL Image) :
    Event → Option (Cell URL Image)
  | .configured item => some (cell.configure url item)
  | .downloaded i =>
    cell.downloads[i]?.map fun finished => { cell with
      image := if cell.bound = some finished then some (contents finished) else cell.image
      downloads := cell.downloads.eraseIdx i }

def shown (cell : Cell URL Image) : Text × Text × Option Image :=
  (cell.nameLabel, cell.amountLabel, cell.image)

end Cell

/-! ## Rows -/

def itemAt (row : Nat) : App Item := do
  match (← getItemArray)[row]? with
  | some item => return item
  | none => trap

def cellForRowAt (url : Text → Option URL) (row : Nat) (cell : Cell URL Image) : App (Cell URL Image) := do
  let item ← itemAt row
  return cell.configure url item

/-- The URL of the picture that is shown full screen, if any. -/
def didHighlightRowAt (url : Text → Option URL) (row : Nat) : App (Option URL) := do
  let selectedItem ← itemAt row
  if selectedItem.pictureName ≠ noPicture then
    return url (← itemAt row).picture
  else
    return none

theorem itemAt_run (row : Nat) (c : Client) :
    (itemAt row).run c = c.itemArray[row]?.map fun item => (item, c) := by
  unfold itemAt
  simp only [StateT.run_bind, getItemArray_run, Option.bind_eq_bind, Option.bind_some]
  cases c.itemArray[row]? <;> rfl

theorem cellForRowAt_run (url : Text → Option URL) (row : Nat) (cell : Cell URL Image) (c : Client) :
    (cellForRowAt url row cell).run c = c.itemArray[row]?.map fun item => (cell.configure url item, c) := by
  unfold cellForRowAt
  rw [StateT.run_bind, itemAt_run]
  cases c.itemArray[row]? <;> rfl

theorem didHighlightRowAt_run (url : Text → Option URL) (row : Nat) (c : Client) :
    (didHighlightRowAt url row).run c = c.itemArray[row]?.map fun item =>
      (if item.pictureName ≠ noPicture then url item.picture else none, c) := by
  unfold didHighlightRowAt
  rw [StateT.run_bind, itemAt_run]
  cases h : c.itemArray[row]? with
  | none => rfl
  | some item =>
    by_cases hn : item.pictureName = noPicture
    · simp [hn]
    · simp [hn, itemAt_run, h]

/-! ## Histories of one cell -/

namespace Cell

section
variable [DecidableEq URL] (url : Text → Option URL) (contents : URL → Image)

/-- The cell after some history, once `item` is configured and every download has finished. -/
def Settled (item : Item) (cell : Cell URL Image) : Prop :=
  ∃ history downloads, (∀ e ∈ downloads, e.isDownload = true) ∧
    Runs.run (step url contents) {} (history ++ .configured item :: downloads) = some cell ∧
    cell.downloads = []

/-- What is shown depends on the item alone, and an item without a picture shows none. -/
def ShowsOnly (item : Item) : Prop := ∀ cell cell', Settled url contents item cell →
  Settled url contents item cell' →
    cell.shown = cell'.shown ∧ (item.picture = noPicture → cell.image = none)

end

section
variable [DecidableEq URL] {url : Text → Option URL} {contents : URL → Image} {item : Item}
  {cell cell' : Cell URL Image}

/-- An item with a picture has been configured: what is shown is its picture, or
nothing while the download is still to come. -/
structure Showing (url : Text → Option URL) (contents : URL → Image) (item : Item)
    (cell : Cell URL Image) : Prop where
  name : cell.nameLabel = item.name
  amount : cell.amountLabel = amountText item.amount
  bound : cell.bound = url item.picture
  image : cell.image = (url item.picture).map contents ∨
    (cell.image = none ∧ ∀ u ∈ url item.picture, u ∈ cell.downloads)

omit [DecidableEq URL] in
theorem configure_picture (h : item.picture ≠ noPicture) (cell : Cell URL Image) :
    cell.configure url item = { cell.setImage (url item.picture) with
      nameLabel := item.name, amountLabel := amountText item.amount } := by
  simp only [configure, h, ne_eq, not_false_eq_true, ite_true]

omit [DecidableEq URL] in
theorem showing_configure (h : item.picture ≠ noPicture) :
    Showing url contents item (cell.configure url item) := by
  rw [configure_picture h]
  refine ⟨rfl, rfl, rfl, Or.inr ⟨rfl, fun u hu => ?_⟩⟩
  exact List.mem_append_right _ (by simpa using hu)

theorem Showing.downloaded {i : Nat} (h : Showing url contents item cell)
    (hs : step url contents cell (.downloaded i) = some cell') : Showing url contents item cell' := by
  obtain ⟨finished, hi, rfl⟩ := Option.map_eq_some_iff.mp hs
  refine ⟨h.name, h.amount, h.bound, ?_⟩
  by_cases hb : cell.bound = some finished
  · left
    rw [if_pos hb, ← h.bound, hb]
    rfl
  · simp only [if_neg hb]
    refine h.image.imp_right fun ⟨hnone, hdue⟩ => ⟨hnone, fun u hu => ?_⟩
    have hne : finished ≠ u := by
      rintro rfl
      exact hb (h.bound.trans hu)
    have hm := (Lists.perm_cons_eraseIdx hi).mem_iff.mp (hdue u hu)
    exact (List.mem_cons.mp hm).resolve_left (Ne.symm hne)

theorem Showing.run {es : List Event} (he : ∀ e ∈ es, e.isDownload = true)
    (h : Showing url contents item cell) (hr : Runs.run (step url contents) cell es = some cell') :
    Showing url contents item cell' := by
  refine Runs.Along.invariant (I := Showing url contents item) (C := fun _ e _ => e.isDownload = true)
    ?_ h (Runs.Along.of_forall cell he) hr
  intro cell e cell' h he hs
  cases e with
  | configured => cases he
  | downloaded i => exact h.downloaded hs

omit [DecidableEq URL] in
theorem Showing.shown (h : Showing url contents item cell) (hd : cell.downloads = []) :
    cell.shown = (item.name, amountText item.amount, (url item.picture).map contents) := by
  have himage : cell.image = (url item.picture).map contents := by
    rcases h.image with himage | ⟨hnone, hdue⟩
    · exact himage
    · cases hu : url item.picture with
      | none => exact hnone
      | some u => rw [hd] at hdue; cases hdue u hu
  rw [Cell.shown, h.name, h.amount, himage]

theorem Settled.shown (h : Settled url contents item cell) (hp : item.picture ≠ noPicture) :
    cell.shown = (item.name, amountText item.amount, (url item.picture).map contents) := by
  obtain ⟨history, downloads, hall, hr, hd⟩ := h
  rw [Runs.run_append] at hr
  obtain ⟨before, -, hr⟩ := Option.bind_eq_some_iff.mp hr
  obtain ⟨configured, hs, hr⟩ := Runs.run_cons_some hr
  cases hs
  exact ((showing_configure hp).run hall hr).shown hd

end

/-- **When a cell shows only its own item.** Whatever the cell has shown before
and in whatever order the downloads finish, what it shows in the end depends on
the item alone exactly when the item has a picture. -/
theorem showsOnly_iff [DecidableEq URL] (url : Text → Option URL) (contents : URL → Image)
    (hurl : ∃ picture ≠ noPicture, (url picture).isSome = true) (item : Item) :
    ShowsOnly url contents item ↔ item.picture ≠ noPicture := by
  refine ⟨?_, ?_⟩
  · intro h hp
    obtain ⟨picture, hne, hu⟩ := hurl
    obtain ⟨u, hu⟩ := Option.isSome_iff_exists.mp hu
    have hold : Settled url contents item
        (configure url item { bound := some u, image := some (contents u) }) := by
      refine ⟨[.configured ⟨[], [], picture, []⟩, .downloaded 0], [], nofun, ?_, ?_⟩
      · simp [Runs.run, step, configure, setImage, hne, hu, hp]
      · simp [configure, hp]
    have hnone := (h _ _ hold hold).2 hp
    simp [configure, hp] at hnone
  · intro hp cell cell' h h'
    exact ⟨(h.shown hp).trans (h'.shown hp).symm, fun hno => absurd hno hp⟩

def readURL (picture : Text) : Option Text := if picture.isEmpty then none else some picture

def unpictured : Item := ⟨['x'], ['1'], noPicture, noPicture⟩

def linked : Item := ⟨['y'], ['2'], ['l'], ['n']⟩

theorem recycled_cell_keeps : ∃ cell cell' : Cell Text Text,
    Settled readURL id unpictured cell ∧ Settled readURL id unpictured cell' ∧
    cell.image = none ∧ cell'.image = some ['l'] ∧ ¬ShowsOnly readURL id unpictured := by
  have hfresh : Settled readURL id unpictured (configure readURL unpictured {}) :=
    ⟨[], [], nofun, rfl, rfl⟩
  have hused : Settled readURL id unpictured (configure readURL unpictured
      { bound := some ['l'], image := some ['l'] }) :=
    ⟨[.configured linked, .downloaded 0], [], nofun, rfl, rfl⟩
  refine ⟨_, _, hfresh, hused, rfl, rfl, fun h => ?_⟩
  cases (h _ _ hused hused).2 rfl

theorem showsOnly_iff_linked : ShowsOnly readURL id linked ∧ ¬ShowsOnly readURL id unpictured := by
  have hurl : ∃ picture ≠ noPicture, (readURL picture).isSome = true := ⟨['l'], by decide, rfl⟩
  refine ⟨?_, fun h => ?_⟩
  · exact (showsOnly_iff readURL id hurl linked).mpr (by decide)
  · exact (showsOnly_iff readURL id hurl unpictured).mp h rfl

end Cell

end ShoppingList

import ShoppingList.Lib.Runs

/-!
# The Settings screen

The switch is kept in the user defaults and read back by `viewDidLoad`. The date
is kept in the pending reminder alone, and no visit reads it back; the picker
starts at the storyboard's date. `chosen` keeps beside the visits what the user
has picked last.
-/

namespace ShoppingList

variable {Date Components : Type}

structure Request (Components : Type) where
  identifier : String
  title : String
  subtitle : String
  body : String
  dateMatching : Components
  repeats : Bool
  deriving DecidableEq

/-- The user defaults and the notification centre. -/
structure Settings (Components : Type) where
  showNotifications : Bool := false
  pending : List (Request Components) := []
  delivered : List (Request Components) := []

namespace Settings

/-- A pending request with the same identifier is replaced. -/
def add (request : Request Components) (s : Settings Components) : Settings Components :=
  { s with pending := s.pending.filter (·.identifier ≠ request.identifier) ++ [request] }

def removeAllDeliveredNotifications (s : Settings Components) : Settings Components :=
  { s with delivered := [] }

def reminder (datePicked : Components) : Request Components where
  identifier := "identifier"
  title := "Shopping List"
  subtitle := "Reminder"
  body := "This is your reminder to go shopping!"
  dateMatching := datePicked
  repeats := true

/-! ## The screen -/

structure Screen (Date : Type) where
  isOn : Bool
  isEnabled : Bool
  date : Date
  /-- The date the user has picked last in this visit; no code reads it. -/
  picked : Option Date := none

/-- A disabled picker receives no touches. -/
inductive Touch (Date : Type) where
  | toggled
  | picked (date : Date)

namespace Screen

def enableDisableDatePicker (screen : Screen Date) : Screen Date :=
  if screen.isOn then { screen with isEnabled := true } else { screen with isEnabled := false }

def touch (screen : Screen Date) : Touch Date → Screen Date
  | .toggled => enableDisableDatePicker { screen with isOn := !screen.isOn }
  | .picked date => if screen.isEnabled then { screen with date, picked := some date } else screen

end Screen

section
variable (dateComponents : Date → Components) (storyboardDate : Date)

def viewDidLoad (s : Settings Components) : Screen Date where
  isOn := s.showNotifications
  isEnabled := s.showNotifications
  date := storyboardDate

def viewWillDisappear (screen : Screen Date) (s : Settings Components) : Settings Components :=
  let s := { s with showNotifications := screen.isOn }
  if screen.isOn then
    s.add (reminder (dateComponents screen.date))
  else
    s.removeAllDeliveredNotifications

def left (s : Settings Components) (touches : List (Touch Date)) : Screen Date :=
  touches.foldl Screen.touch (s.viewDidLoad storyboardDate)

def visit (s : Settings Components) (touches : List (Touch Date)) : Option (Settings Components) :=
  some (s.viewWillDisappear dateComponents (s.left storyboardDate touches))

/-- The date the user has picked last, in this visit or before. -/
def chosen (s : Settings Components) (touches : List (Touch Date)) (_ : Settings Components)
    (date : Option Date) : Option Date :=
  (s.left storyboardDate touches).picked.or date

/-! ## What a visit should and what it needs to do -/

structure AsChosen (p : Settings Components × Option Date) (touches : List (Touch Date))
    (p' : Settings Components × Option Date) : Prop where
  switch : p'.1.showNotifications = (p.1.left storyboardDate touches).isOn
  off : (p.1.left storyboardDate touches).isOn = false → p'.1.pending = []
  on : (p.1.left storyboardDate touches).isOn = true →
    ∃ date, p'.2 = some date ∧ p'.1.pending = [reminder (dateComponents date)]
  untouched : touches = [] →
    p'.1.showNotifications = p.1.showNotifications ∧ p'.1.pending = p.1.pending

/-- A visit that leaves the switch off finds no reminder pending. One that leaves
it on picks a date, unless the date picked before is the storyboard's. -/
structure Renewed (p : Settings Components × Option Date) (touches : List (Touch Date)) : Prop where
  off : (p.1.left storyboardDate touches).isOn = false → p.1.pending = []
  on : (p.1.left storyboardDate touches).isOn = true → (p.1.left storyboardDate touches).picked = none →
    ∃ date, p.2 = some date ∧ dateComponents date = dateComponents storyboardDate

end

structure Settled (dateComponents : Date → Components) (p : Settings Components × Option Date) : Prop where
  off : p.1.showNotifications = false → p.1.pending = []
  on : p.1.showNotifications = true →
    ∃ date, p.2 = some date ∧ p.1.pending = [reminder (dateComponents date)]

section
variable {dateComponents : Date → Components} {storyboardDate : Date} {s : Settings Components}
  {touches : List (Touch Date)}

theorem enableDisableDatePicker_eq (screen : Screen Date) :
    screen.enableDisableDatePicker = { screen with isEnabled := screen.isOn } := by
  unfold Screen.enableDisableDatePicker
  cases h : screen.isOn <;> simp

theorem touch_date {screen : Screen Date} (h : screen.date = screen.picked.getD storyboardDate)
    (t : Touch Date) : (screen.touch t).date = (screen.touch t).picked.getD storyboardDate := by
  cases t with
  | toggled =>
    rw [Screen.touch, enableDisableDatePicker_eq]
    exact h
  | picked date =>
    simp only [Screen.touch]
    split
    · rfl
    · exact h

theorem left_date (s : Settings Components) (touches : List (Touch Date)) :
    (s.left storyboardDate touches).date = (s.left storyboardDate touches).picked.getD storyboardDate := by
  unfold left
  have hstart : (s.viewDidLoad storyboardDate).date =
      (s.viewDidLoad storyboardDate).picked.getD storyboardDate := rfl
  generalize s.viewDidLoad storyboardDate = screen at hstart ⊢
  induction touches generalizing screen with
  | nil => exact hstart
  | cons t touches ih => exact ih _ (touch_date hstart t)

theorem viewWillDisappear_showNotifications (screen : Screen Date) :
    (s.viewWillDisappear dateComponents screen).showNotifications = screen.isOn := by
  unfold viewWillDisappear
  simp only
  split <;> rfl

theorem viewWillDisappear_off {screen : Screen Date} (h : screen.isOn = false) :
    (s.viewWillDisappear dateComponents screen).pending = s.pending := by
  simp [viewWillDisappear, h, removeAllDeliveredNotifications]

theorem viewWillDisappear_on {screen : Screen Date} (h : screen.isOn = true) :
    (s.viewWillDisappear dateComponents screen).pending =
      s.pending.filter (·.identifier ≠ "identifier") ++ [reminder (dateComponents screen.date)] := by
  simp only [viewWillDisappear, h, ite_true, add]
  rfl

theorem Settled.filter_pending {p : Settings Components × Option Date} (h : Settled dateComponents p) :
    p.1.pending.filter (·.identifier ≠ "identifier") = [] := by
  cases hs : p.1.showNotifications with
  | false => rw [h.off hs]; rfl
  | true =>
    obtain ⟨date, -, hp⟩ := h.on hs
    rw [hp]
    rfl

theorem reminder_inj {a b : Components} (h : [reminder a] = [reminder b]) : a = b := by
  cases h
  rfl

section
variable {p p' : Settings Components × Option Date}

theorem Settled.asChosen_iff (h : Settled dateComponents p)
    (hv : Runs.record (visit dateComponents storyboardDate) (chosen storyboardDate) p touches = some p') :
    AsChosen dateComponents storyboardDate p touches p' ↔
      Renewed dateComponents storyboardDate p touches := by
  obtain ⟨hs, hdate⟩ := Runs.record_some.mp hv
  have hs : p.1.viewWillDisappear dateComponents (p.1.left storyboardDate touches) = p'.1 := Option.some.inj hs
  have hswitch : (p.1.viewWillDisappear dateComponents (p.1.left storyboardDate touches)).showNotifications =
      (p.1.left storyboardDate touches).isOn := viewWillDisappear_showNotifications _
  have hpicked : (p.1.left storyboardDate touches).date =
      (p.1.left storyboardDate touches).picked.getD storyboardDate := left_date p.1 touches
  have huntouched : touches = [] → (p.1.left storyboardDate touches).isOn = p.1.showNotifications ∧
      (p.1.left storyboardDate touches).picked = none := by
    rintro rfl
    exact ⟨rfl, rfl⟩
  rw [hs] at hswitch
  rw [chosen] at hdate
  cases hon : (p.1.left storyboardDate touches).isOn with
  | false =>
    have hpending : p'.1.pending = p.1.pending := by rw [← hs]; exact viewWillDisappear_off hon
    refine ⟨?_, ?_⟩
    · intro ha
      exact ⟨fun _ => hpending ▸ ha.off hon, fun ht => absurd (hon.symm.trans ht) nofun⟩
    · intro hr
      refine ⟨hswitch, fun _ => hpending.trans (hr.off hon), fun ht => absurd (hon.symm.trans ht) nofun, ?_⟩
      exact fun ht => ⟨hswitch.trans (huntouched ht).1, hpending⟩
  | true =>
    have hpending : p'.1.pending = [reminder (dateComponents (p.1.left storyboardDate touches).date)] := by
      rw [← hs, viewWillDisappear_on hon, h.filter_pending]
      rfl
    refine ⟨?_, ?_⟩
    · intro ha
      refine ⟨fun hf => absurd (hon.symm.trans hf) nofun, fun _ hnone => ?_⟩
      obtain ⟨date, hd, hp⟩ := ha.on hon
      rw [hnone, Option.none_or] at hdate
      rw [hpicked, hnone, Option.getD_none] at hpending
      exact ⟨date, hdate.symm.trans hd, reminder_inj (hp.symm.trans hpending)⟩
    · intro hr
      have hlast : ∃ date, p'.2 = some date ∧ p'.1.pending = [reminder (dateComponents date)] := by
        cases hk : (p.1.left storyboardDate touches).picked with
        | some date =>
          rw [hk, Option.some_or] at hdate
          rw [hpicked, hk, Option.getD_some] at hpending
          exact ⟨date, hdate, hpending⟩
        | none =>
          obtain ⟨date, hd, heq⟩ := hr.on hon hk
          rw [hk, Option.none_or] at hdate
          rw [hpicked, hk, Option.getD_none, ← heq] at hpending
          exact ⟨date, hdate.trans hd, hpending⟩
      refine ⟨hswitch, fun hf => absurd (hon.symm.trans hf) nofun, fun _ => hlast, fun ht => ?_⟩
      obtain ⟨hsame, hnone⟩ := huntouched ht
      obtain ⟨date, hd, hp⟩ := hlast
      obtain ⟨date', hd', hp'⟩ := h.on (hsame.symm.trans hon)
      rw [hnone, Option.none_or, hd, hd', Option.some.injEq] at hdate
      exact ⟨hswitch.trans hsame, by rw [hp, hp', hdate]⟩

theorem AsChosen.settled (h : AsChosen dateComponents storyboardDate p touches p') :
    Settled dateComponents p' := by
  refine ⟨fun hf => h.off (h.switch.symm.trans hf), fun ht => h.on (h.switch.symm.trans ht)⟩

end

end

/-- **When the settings are what the user last chose**: after every visit of a
run, exactly while each visit that leaves the switch on picks a date and each
that leaves it off finds nothing pending. -/
theorem asChosen_iff_renewed (dateComponents : Date → Components) (storyboardDate : Date)
    (visits : List (List (Touch Date))) :
    Runs.Along (Runs.record (visit dateComponents storyboardDate) (chosen storyboardDate))
        (AsChosen dateComponents storyboardDate) ({}, none) visits ↔
      Runs.Along (Runs.record (visit dateComponents storyboardDate) (chosen storyboardDate))
        (fun p touches _ => Renewed dateComponents storyboardDate p touches) ({}, none) visits := by
  refine Runs.Along.iff_of_step (I := Settled dateComponents) (C := fun _ _ _ => True) ?_ ?_
    ⟨fun _ => rfl, nofun⟩ (Runs.Along.of_forall _ fun _ _ => trivial)
  · exact fun p touches p' h _ hv => h.asChosen_iff hv
  · exact fun p touches p' _ _ ha _ => ha.settled

/-- A reminder for 9 is set. Switched off, it stays; in a visit that touches
nothing, it is replaced by one for the storyboard's date, here 3. -/
theorem forgotten_choice : ∃ p p₁ p₂,
    Runs.run (Runs.record (visit id 3) (chosen 3)) ({}, none) [[Touch.toggled, .picked 9]] = some p ∧
    p.1.pending = [reminder 9] ∧
    Runs.record (visit id 3) (chosen 3) p [.toggled] = some p₁ ∧ p₁.1.showNotifications = false ∧
    p₁.1.pending = [reminder 9] ∧ ¬AsChosen id 3 p [.toggled] p₁ ∧
    Runs.record (visit id 3) (chosen 3) p [] = some p₂ ∧ p₂.1.pending = [reminder 3] ∧
    ¬AsChosen id 3 p [] p₂ := by
  refine ⟨_, _, _, rfl, rfl, rfl, rfl, rfl, fun h => ?_, rfl, rfl, fun h => ?_⟩
  · cases h.off rfl
  · cases reminder_inj (h.untouched rfl).2

end Settings

end ShoppingList

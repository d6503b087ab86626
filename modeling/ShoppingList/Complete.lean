import ShoppingList.Loading
import ShoppingList.Texts

/-!
# Complete items

`saveClicked` means to let only items with a name and an amount through, but its
second check reads the name again, and both look at the texts before they are
joined with `;`. `Entered` says of the two texts what the checks should have said.
-/

namespace ShoppingList

def Item.Complete (item : Item) : Prop := item.name ≠ [] ∧ item.amount ≠ []

/-- Neither the amount nor one of the two components that are read back as name
and amount is empty. -/
def Entered (name amount : Text) : Prop :=
  amount ≠ [] ∧ ∀ part ∈ (components (name ++ [semicolon] ++ amount)).take 2, part ≠ []

instance (name amount : Text) : Decidable (Entered name amount) := inferInstanceAs (Decidable (_ ∧ _))

namespace Event

/-- A save that is not refused is of two texts that are `Entered`. -/
def Filled : Event → Prop
  | .save form _ => form.name ≠ [] → Entered form.name form.amount
  | _ => True

instance : DecidablePred Filled
  | .save form _ => inferInstanceAs (Decidable (form.name ≠ [] → Entered form.name form.amount))
  | .launch | .register .. | .login .. | .logout .. | .delete .. | .answered .. | .loaded ..
  | .loadFailed .. | .putData .. | .downloadURL .. | .notified => .isTrue trivial

end Event

/-- What the string is read back as is complete. -/
def ReadsComplete (val : Text) : Prop := ∀ item, itemOfString val = some item → item.Complete

/-- A row that is complete and will be when it has been stored. -/
def StaysComplete (item : Item) : Prop := item.Complete ∧ ReadsComplete (convertItemToString item)

/-! ## Items -/

theorem components_ne_nil (val : Text) : components val ≠ [] := List.splitOn_ne_nil semicolon val

theorem components_join (name amount : Text) :
    components (name ++ [semicolon] ++ amount) = components name ++ components amount := by
  unfold components
  rw [List.append_assoc, List.singleton_append, List.splitOn_append_cons_self]

/-- The two leading components are read back as the name and the amount. -/
theorem take_components {item read : Item} (h : itemOfString (convertItemToString item) = some read) :
    (components (item.name ++ [semicolon] ++ item.amount)).take 2 = [read.name, read.amount] := by
  obtain ⟨surplus, hc⟩ := itemOfString_eq_some.mp h
  obtain ⟨n, ns, hn⟩ := List.exists_cons_of_ne_nil (components_ne_nil item.name)
  obtain ⟨a, as, ha⟩ := List.exists_cons_of_ne_nil (components_ne_nil item.amount)
  have hlen : 2 ≤ (components item.name ++ components item.amount).length := by
    rw [hn, ha, List.length_append, List.length_cons, List.length_cons]
    omega
  calc (components (item.name ++ [semicolon] ++ item.amount)).take 2
      = (components item.name ++ components item.amount ++
          (components item.picture ++ components item.pictureName)).take 2 := by
        rw [components_join, List.take_append_of_le_length hlen]
    _ = (components (convertItemToString item)).take 2 := by rw [components_convert, ← List.append_assoc]
    _ = [read.name, read.amount] := by rw [hc]; rfl

theorem staysComplete_iff (item : Item) : StaysComplete item ↔ Entered item.name item.amount := by
  obtain ⟨read, hread⟩ := exists_itemOfString_convert item
  have htake := take_components hread
  unfold Entered
  rw [htake]
  refine ⟨?_, ?_⟩
  · intro ⟨hc, hr⟩
    obtain ⟨hname, hamount⟩ := hr read hread
    refine ⟨hc.2, fun part hpart => ?_⟩
    rcases List.mem_pair.mp hpart with rfl | rfl
    · exact hname
    · exact hamount
  · intro ⟨ha, hparts⟩
    have hname : read.name ≠ [] := hparts _ (List.mem_cons_self ..)
    have hamount : read.amount ≠ [] := hparts _ (List.mem_cons_of_mem _ (List.mem_cons_self ..))
    refine ⟨⟨?_, ha⟩, fun read' hread' => ?_⟩
    · intro hno
      have hnil : components [] = [[]] := List.splitOn_nil semicolon
      rw [hno, components_join, hnil, List.singleton_append, List.take_succ_cons, List.cons.injEq] at htake
      exact hname htake.1.symm
    · rw [hread, Option.some.injEq] at hread'
      exact hread' ▸ ⟨hname, hamount⟩

/-! ## Runs -/

theorem Outcome.entered_uploads {c c' : Client} {e : Event} (h : Outcome c e c') (he : e.Filled)
    (hups : ∀ up ∈ c.uploads, Entered up.name up.amount) : ∀ up ∈ c'.uploads, Entered up.name up.amount := by
  refine h.forall_uploads hups (fun _ _ hup => hup) ?_
  rintro form accepted image uid rfl hn -
  exact he hn

theorem Event.staysComplete_sent {c : Client} {e : Event} (he : e.Filled)
    (hups : ∀ up ∈ c.uploads, Entered up.name up.amount) :
    ∀ item ∈ (e.effect c).sent, StaysComplete item := by
  intro item hm
  rw [staysComplete_iff]
  obtain ⟨uid, upload, accepted, heff⟩ := Effect.mem_sent hm
  rcases Event.effect_eq_put heff with ⟨form, rfl, -, rfl, -⟩ | ⟨i, imageLink, up, rfl, hl, rfl, -⟩
  · refine he fun hn => ?_
    simp [Event.effect, hn] at heff
  · exact hups up (List.mem_of_getElem? hl)

theorem read_staysComplete {val : Text} {item : Item} (h : ReadsComplete val)
    (hr : itemOfString val = some item) : StaysComplete item := by
  refine ⟨h item hr, fun read hread => ?_⟩
  rw [itemOfString_convert (plain_of_itemOfString hr), Option.some.injEq] at hread
  exact hread ▸ h item hr

structure OnlyComplete (w : World) : Prop where
  uploads : ∀ d, ∀ up ∈ (w.device d).uploads, Entered up.name up.amount
  listed : Listed StaysComplete ReadsComplete w

theorem onlyComplete_empty : OnlyComplete {} := ⟨nofun, listed_empty _ _⟩

theorem OnlyComplete.step {w w' : World} {d : DeviceId} {e : Event} (h : OnlyComplete w) (he : e.Filled)
    (hs : w.step (d, e) = some w') : OnlyComplete w' where
  uploads := World.step_device (P := fun dev => ∀ up ∈ dev.uploads, Entered up.name up.amount) h.uploads hs
    fun _ ho => ho.entered_uploads he (h.uploads d)
  listed := h.listed.step (fun _ hi => hi.2) (fun _ _ => read_staysComplete)
    (Event.staysComplete_sent he (h.uploads d)) hs

/-- **Only complete items are listed**, on every device and in every document,
in any run of any number of devices and users in which the texts of every save
that is not refused are `Entered`. -/
theorem only_complete_listed (es : List (DeviceId × Event)) (w : World) (hf : ∀ de ∈ es, de.2.Filled)
    (hr : Runs.run World.step {} es = some w) :
    (∀ d, ∀ item ∈ (w.device d).itemArray, item.name ≠ [] ∧ item.amount ≠ []) ∧
    (∀ uid doc, w.server.users.lookup uid = some doc → ∀ val ∈ doc.items, ∀ item,
      itemOfString val = some item → item.name ≠ [] ∧ item.amount ≠ []) := by
  have h : OnlyComplete w := by
    refine Runs.Along.invariant (I := OnlyComplete) (C := fun _ de _ => de.2.Filled) ?_
      onlyComplete_empty (Runs.Along.of_forall _ hf) hr
    intro w de w' h he hs
    obtain ⟨d, e⟩ := de
    exact h.step he hs
  exact ⟨fun d item hm => (h.listed.rows d item hm).1, h.listed.stored⟩

def saveText (name amount : Text) : DeviceId × Event := (0, .save ⟨name, amount, none⟩ true)

/-- An item without an amount is saved; one whose name is `;` is read back
without a name. -/
theorem incomplete_saves : (∃ w, Runs.run World.step {} (signedIn ++ [saveText ['x'] []]) = some w ∧
      (w.device 0).itemArray = [⟨['x'], [], noPicture, noPicture⟩]) ∧
    (∃ w, Runs.run World.step {} (signedIn ++ [saveText [';'] ['1'], (0, .launch), (0, .answered 0),
        (0, .loaded 0)]) = some w ∧
      (w.device 0).itemArray = [⟨[], [], ['1'], noPicture⟩]) := by decide

theorem only_complete_listed_saved : ∃ w,
    Runs.run World.step {} (signedIn ++ [saveText ['x', ';', 'y'] ['1'], saveText [] []]) = some w ∧
    (w.device 0).itemArray.length = 1 ∧
    ∀ d, ∀ item ∈ (w.device d).itemArray, item.name ≠ [] ∧ item.amount ≠ [] := by
  obtain ⟨w, hw, hlen⟩ : ∃ w,
      Runs.run World.step {} (signedIn ++ [saveText ['x', ';', 'y'] ['1'], saveText [] []]) = some w ∧
      (w.device 0).itemArray.length = 1 := by decide
  exact ⟨w, hw, hlen, (only_complete_listed _ w (by decide) hw).1⟩

end ShoppingList

import ShoppingList.Outcome

/-!
# Saving and the screen

A save acquires the group, the interaction and the indicator; the last callback
of `addItemAndImage` gives them back, and each of its three failing exits gives
back nothing. `Balanced n` counts the exits that were taken: after `n` of them
the group lacks `n` calls of `leave`, and no block that waits for it ever runs.
-/

namespace ShoppingList

namespace Event

def isSaving : Event → Bool
  | .save .. | .putData .. | .downloadURL .. | .notified => true
  | _ => false

/-- A stage of `addItemAndImage` fails here. -/
def failed : Event → Bool
  | .save form _ => !form.name.isEmpty && form.image.any (!·.jpegData)
  | .putData _ ok => !ok
  | .downloadURL _ url _ => url.isNone
  | _ => false

end Event

/-- No request and no block of a save is outstanding. A block that waits for the
group is not: only a `leave` would submit it. -/
def Quiet (d : Device) : Prop := d.uploads = [] ∧ d.group.queued = 0

@[mk_iff] structure Free (d : Device) : Prop where
  group : d.group.entered = d.group.left
  interaction : d.ignoring = 0
  indicator : d.animating = false

/-- Where a run of saves starts: a user is signed in and nothing is acquired. -/
@[mk_iff] structure Idle (d : Device) : Prop where
  signedIn : d.currentUser.isSome = true
  uploads : d.uploads = []
  blocks : d.group.blocks = 0
  free : Free d

instance (d : Device) : Decidable (Quiet d) := inferInstanceAs (Decidable (_ ∧ _))

instance (d : Device) : Decidable (Free d) := decidable_of_iff _ (free_iff d).symm

instance (d : Device) : Decidable (Idle d) := decidable_of_iff _ (idle_iff d).symm

structure Balanced (n : Nat) (d : Device) : Prop where
  signedIn : d.currentUser.isSome = true
  group : d.group.Holds (d.uploads.length + n)
  interaction : d.ignoring ≤ d.uploads.length + n
  indicator : d.animating = decide (d.group.blocks % 2 = 1)

theorem Idle.balanced {d : Device} (h : Idle d) : Balanced 0 d where
  signedIn := h.signedIn
  group := by
    rw [h.uploads]
    have hb := h.blocks
    simp only [DispatchGroup.blocks] at hb
    exact ⟨h.free.group, fun _ => by omega⟩
  interaction := by rw [h.free.interaction]; omega
  indicator := by rw [h.free.indicator, h.blocks]; rfl

theorem not_odd_succ (n : Nat) : (!decide (n % 2 = 1)) = decide ((n + 1) % 2 = 1) := by
  by_cases h : n % 2 = 1
  · simp [h, show ¬(n + 1) % 2 = 1 by omega]
  · simp [h, show (n + 1) % 2 = 1 by omega]

/-! ## One step -/

section
variable {c c' : Client} {e : Event} {n : Nat}

theorem Balanced.dropUpload {d : Device} (h : Balanced n d) {i : Nat} {upload : Upload}
    (hl : d.uploads[i]? = some upload) : Balanced (n + 1) { d with uploads := d.uploads.eraseIdx i } := by
  have hlen := List.length_eraseIdx_add_one (List.getElem?_eq_some_iff.mp hl).1
  have hsum : (d.uploads.eraseIdx i).length + (n + 1) = d.uploads.length + n := by omega
  refine ⟨h.signedIn, ?_, ?_, h.indicator⟩
  · simp only [hsum]; exact h.group
  · simp only [hsum]; exact h.interaction

theorem Outcome.balanced (h : Outcome c e c') (hs : e.isSaving = true) (hb : Balanced n c.toDevice) :
    Balanced (n + e.failed.toNat) c'.toDevice := by
  have hflip := hb.indicator
  cases h with
  | warned hn => simpa [Event.failed, hn] using ⟨hb.signedIn, hb.group, hb.interaction, hb.indicator⟩
  | @uploading form accepted image uid hn hi hj hu =>
    have hf : (Event.save form accepted).failed = false := by simp [Event.failed, hi, hj]
    rw [hf]
    refine ⟨hb.signedIn, ?_, ?_, ?_⟩
    · have hg := hb.group.enter.notify
      rw [Nat.add_right_comm] at hg
      simpa using hg
    · have := hb.interaction
      simp only [List.length_append, List.length_singleton, Bool.toNat_false]; omega
    · simp [hflip, not_odd_succ]
  | @noJpeg form accepted image hn hi hj =>
    have hf : (Event.save form accepted).failed = true := by simp [Event.failed, hn, hi, hj]
    rw [hf]
    -- nothing is on its way, so nothing will ever match the two calls
    refine ⟨hb.signedIn, hb.group.enter.notify, Nat.succ_le_succ hb.interaction, ?_⟩
    simp [hflip, not_odd_succ]
  | @saved form accepted uid hn hi hu =>
    have hf : (Event.save form accepted).failed = false := by simp [Event.failed, hi]
    rw [hf]
    -- `disableInteraction(false)` without a matching call, so only the bound is kept
    refine ⟨hb.signedIn, hb.group.enter.leave.notify, Nat.le_trans (Nat.sub_le ..) hb.interaction, ?_⟩
    simp [hflip, not_odd_succ]
  | @imageStored i upload hl =>
    refine ⟨hb.signedIn, ?_, ?_, hb.indicator⟩
    · simp only [List.length_set]; exact hb.group
    · simp only [List.length_set]; exact hb.interaction
  | putDataFailed hl => exact hb.dropUpload hl
  | urlFailed hl => exact hb.dropUpload hl
  | @uploaded i accepted upload imageLink uid hl hu =>
    have hlen := List.length_eraseIdx_add_one (List.getElem?_eq_some_iff.mp hl).1
    have hsum : c.uploads.length + n = (c.uploads.eraseIdx i).length + n + 1 := by omega
    have hg := hb.group
    have hi := hb.interaction
    rw [hsum] at hg hi
    -- `putItemInDatabase` enters and leaves, the callback leaves for `addItemAndImage`
    refine ⟨hb.signedIn, hg.enter.leave.leave, Nat.sub_le_of_le_add hi, ?_⟩
    simpa using hflip
  | uploadOrphaned hl hu =>
    have hin : c.currentUser.isSome = true := hb.signedIn
    rw [hu] at hin
    cases hin
  | notified hq =>
    refine ⟨hb.signedIn, hb.group.runBlock, hb.interaction, ?_⟩
    have hblocks := DispatchGroup.runBlock_blocks hq
    simp only [hflip, ← hblocks, ← not_odd_succ, Bool.not_not]
  | _ => cases hs

end

/-! ## Runs -/

def SavesOn (d : DeviceId) (es : List (DeviceId × Event)) : Prop :=
  ∀ de ∈ es, de.1 = d → de.2.isSaving = true

instance (d : DeviceId) (es : List (DeviceId × Event)) : Decidable (SavesOn d es) :=
  inferInstanceAs (Decidable (∀ de ∈ es, _))

def failedOn (d : DeviceId) (de : DeviceId × Event) : Bool := de.1 = d && de.2.failed

theorem Balanced.step {w w' : World} {d : DeviceId} {de : DeviceId × Event} {n : Nat}
    (h : Balanced n (w.device d)) (hs : de.1 = d → de.2.isSaving = true) (hw : w.step de = some w') :
    Balanced (n + (failedOn d de).toNat) (w'.device d) := by
  obtain ⟨d', e⟩ := de
  by_cases hd : d' = d
  · subst hd
    obtain ⟨c, ho, rfl⟩ := World.step_outcome hw
    simpa [failedOn] using ho.balanced (hs rfl) h
  · obtain ⟨c, -, rfl⟩ := World.step_outcome hw
    rw [World.put_device_ne w (Ne.symm hd)]
    simpa [failedOn, hd] using h

theorem Balanced.run {d : DeviceId} : ∀ {es : List (DeviceId × Event)} {w w' : World} {n : Nat},
    Balanced n (w.device d) → SavesOn d es → Runs.run World.step w es = some w' →
      Balanced (n + es.countP (failedOn d)) (w'.device d)
  | [], _, _, _, h, _, hr => by cases hr; exact h
  | de :: es, w, w', n, h, hs, hr => by
    obtain ⟨t, ht, hr⟩ := Runs.run_cons_some hr
    have hb := (h.step (hs de (List.mem_cons_self ..)) ht).run
      (fun de' hm => hs de' (List.mem_cons_of_mem _ hm)) hr
    rw [List.countP_cons]
    cases hf : failedOn d de <;> simpa [hf, Nat.add_assoc, Nat.add_comm] using hb

theorem Balanced.free_iff {d : Device} {n : Nat} (h : Balanced n d) (hq : Quiet d) : Free d ↔ n = 0 := by
  obtain ⟨hu, hqueued⟩ := hq
  have hg := h.group
  have hi := h.interaction
  rw [hu, List.length_nil, Nat.zero_add] at hg hi
  refine ⟨?_, ?_⟩
  · intro hf
    have := hg.entered
    have := hf.group
    omega
  · intro hn
    subst hn
    have hblocks : d.group.blocks = 0 := by rw [DispatchGroup.blocks, hg.idle rfl, hqueued]
    exact ⟨hg.entered, Nat.le_zero.mp hi, by rw [h.indicator, hblocks]; rfl⟩

/-- **When saving gives the screen back.** In every run of saves, in which other
devices may do anything, `leave` is never called more often than `enter`; in a
state in which nothing is outstanding the group, the interaction and the
indicator are all given back if and only if no stage of `addItemAndImage` has
failed. -/
theorem saving_gives_back (d : DeviceId) (w w' : World) (es : List (DeviceId × Event))
    (hi : Idle (w.device d)) (hs : SavesOn d es) (hr : Runs.run World.step w es = some w') :
    (w'.device d).group.left ≤ (w'.device d).group.entered ∧
    (Quiet (w'.device d) → (Free (w'.device d) ↔ ∀ de ∈ es, de.1 = d → de.2.failed = false)) := by
  have hb := hi.balanced.run hs hr
  refine ⟨hb.group.left_le, fun hq => ?_⟩
  rw [hb.free_iff hq, Nat.zero_add, List.countP_eq_zero]
  refine forall₂_congr fun de _ => ?_
  simp [failedOn]

/-! ## The frozen screen -/

theorem Quiet.enabled {c : Client} (h : Quiet c.toDevice) (hl : c.loads = []) {e : Event}
    (he : e.enabled c = true) : e = .launch ∨ e.isTap = true := by
  obtain ⟨hu, hq⟩ := h
  cases e with
  | launch => exact Or.inl rfl
  | register | login | logout | save | delete => exact Or.inr rfl
  | answered | loaded | loadFailed => simp [Event.enabled, hl] at he
  | putData | downloadURL => simp [Event.enabled, hu] at he
  | notified => simp [Event.enabled, hq] at he

def pictureForm : Form := ⟨['x'], ['1'], some ⟨['n'], true⟩⟩

/-- `putData` fails. Nothing is outstanding, the group lacks a `leave`, the
indicator turns, and every tap is ignored from here on. -/
theorem saving_freezes : ∃ w w', Runs.run World.step {} signedIn = some w ∧ Idle (w.device 0) ∧
    SavesOn 0 [(0, .save pictureForm true), (0, .putData 0 false)] ∧
    Runs.run World.step w [(0, .save pictureForm true), (0, .putData 0 false)] = some w' ∧
    Quiet (w'.device 0) ∧ ¬Free (w'.device 0) ∧
    (w'.device 0).group.entered = 1 ∧ (w'.device 0).group.left = 0 ∧
    (w'.device 0).ignoring = 1 ∧ (w'.device 0).animating = true ∧
    ∀ e, e.enabled (w'.client 0) = true → w'.Gated (0, e) → e = .launch := by
  obtain ⟨w, hw, hidle, w', hw', hq, hentered, hleft, hignoring, hanimating, hloads⟩ : ∃ w,
      Runs.run World.step {} signedIn = some w ∧ Idle (w.device 0) ∧
      ∃ w', Runs.run World.step w [(0, .save pictureForm true), (0, .putData 0 false)] = some w' ∧
        Quiet (w'.device 0) ∧ (w'.device 0).group.entered = 1 ∧ (w'.device 0).group.left = 0 ∧
        (w'.device 0).ignoring = 1 ∧ (w'.device 0).animating = true ∧ (w'.device 0).loads = [] := by decide
  refine ⟨w, w', hw, hidle, by decide, hw', hq, fun hfree => ?_, hentered, hleft,
    hignoring, hanimating, fun e he hg => ?_⟩
  · have := hfree.interaction
    omega
  · rcases hq.enabled (c := w'.client 0) hloads he with hlaunch | htap
    · exact hlaunch
    · have : (w'.device 0).ignoring = 0 := hg htap
      omega

theorem saving_gives_back_picture : ∃ w w', Idle (w.device 0) ∧ Runs.run World.step w
      [(0, .save pictureForm true), (0, .putData 0 true), (0, .downloadURL 0 (some ['l']) true),
        (0, .notified)] = some w' ∧ Free (w'.device 0) := by
  obtain ⟨w, -, hidle, w', hw', hq⟩ : ∃ w, Runs.run World.step {} signedIn = some w ∧ Idle (w.device 0) ∧
      ∃ w', Runs.run World.step w [(0, .save pictureForm true), (0, .putData 0 true),
        (0, .downloadURL 0 (some ['l']) true), (0, .notified)] = some w' ∧ Quiet (w'.device 0) := by decide
  have hback := (saving_gives_back 0 w w' _ hidle (by decide) hw').2 hq
  exact ⟨w, w', hidle, hw', hback.mpr (by decide)⟩

end ShoppingList

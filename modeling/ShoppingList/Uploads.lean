import ShoppingList.Outcome

/-!
# Uploads and the signed-in user

The callback of `downloadURL` looks the user up when it runs, three requests
after the tap on Save. While a picture is on its way interaction is ignored, so
in a run in which UIKit drops those taps nobody can have signed out meanwhile.
-/

namespace ShoppingList

/-- At most one upload is outstanding; while it is, interaction is ignored and
the user who saved it is signed in. -/
structure Exclusive (d : Device) : Prop where
  one : d.uploads.length ≤ 1
  held : d.uploads ≠ [] → 0 < d.ignoring
  owner : ∀ upload ∈ d.uploads, ∃ uid, d.currentUser = some uid ∧ upload.savedBy = some uid

theorem Exclusive.of_nil {d : Device} (h : d.uploads = []) : Exclusive d where
  one := by rw [h]; exact Nat.zero_le 1
  held := fun hne => absurd h hne
  owner := by rw [h]; nofun

theorem Exclusive.uploads_eq_nil {d : Device} (h : Exclusive d) (hi : d.ignoring = 0) : d.uploads = [] :=
  not_not.mp fun hne => by have := h.held hne; omega

theorem eraseIdx_of_length_le_one {α : Type} {xs : List α} {i : Nat} {x : α} (h : xs.length ≤ 1)
    (hx : xs[i]? = some x) : xs.eraseIdx i = [] := by
  have hi : i < xs.length := (List.getElem?_eq_some_iff.mp hx).1
  have hl := List.length_eraseIdx_add_one hi
  exact List.length_eq_zero_iff.mp (by omega)

section
variable {c c' : Client} {e : Event}

theorem Outcome.exclusive (h : Outcome c e c') (hg : e.isTap = true → c.ignoring = 0)
    (hx : Exclusive c.toDevice) : Exclusive c'.toDevice := by
  cases h with
  | launched => exact .of_nil rfl
  | registered | loggedIn | loggedOut | noJpeg | saved | deleted | rowMissing =>
    exact .of_nil (hx.uploads_eq_nil (hg rfl))
  | @uploading form accepted image uid hn hi hj hu =>
    have hnil : c.uploads = [] := hx.uploads_eq_nil (hg rfl)
    refine ⟨?_, ?_, ?_⟩
    · simp [hnil]
    · intro _; exact Nat.succ_pos _
    · simp [hnil, hu]
  | @imageStored i upload hl =>
    refine ⟨by simpa using hx.one, fun _ => ?_, fun up hup => ?_⟩
    · exact hx.held (List.ne_nil_of_mem (List.mem_of_getElem? hl))
    · rcases List.mem_or_eq_of_mem_set hup with hold | rfl
      · exact hx.owner up hold
      · exact hx.owner upload (List.mem_of_getElem? hl)
  | putDataFailed hl | urlFailed hl | uploaded hl => exact .of_nil (eraseIdx_of_length_le_one hx.one hl)
  | _ => exact ⟨hx.one, hx.held, hx.owner⟩

end

theorem exclusive_run {w : World} {es : List (DeviceId × Event)}
    (hg : Runs.Along World.step (fun w de _ => w.Gated de) {} es)
    (hr : Runs.run World.step {} es = some w) (d : DeviceId) : Exclusive (w.device d) := by
  have hinv : ∀ d, Exclusive (w.device d) := by
    refine Runs.Along.invariant (I := fun w => ∀ d, Exclusive (w.device d)) ?_ (fun _ => .of_nil rfl) hg hr
    intro w de w' hx hgate hs
    obtain ⟨d, e⟩ := de
    exact World.step_device hx hs fun c ho => ho.exclusive hgate (hx d)
  exact hinv d

/-- **An uploaded item lands in the list of the user who saved it.** In every run
in which taps reach the app only while interaction is not ignored, a device has
at most one upload outstanding, and when its picture's link arrives the user who
tapped Save is signed in: nothing traps, the item is sent to that user's
document and appended to the list. -/
theorem upload_lands (es : List (DeviceId × Event)) (w : World)
    (hg : Runs.Along World.step (fun w de _ => w.Gated de) {} es)
    (hr : Runs.run World.step {} es = some w) :
    (∀ d, (w.device d).uploads.length ≤ 1) ∧
    (∀ d i imageLink accepted w', w.step (d, .downloadURL i (some imageLink) accepted) = some w' →
      ∃ upload uid, (w.device d).uploads[i]? = some upload ∧ upload.savedBy = some uid ∧
        (w.device d).currentUser = some uid ∧ (w'.device d).running = true ∧
        w'.server = w.server.updateData uid
          (.arrayUnion [convertItemToString (upload.item imageLink)]) accepted ∧
        (w'.device d).itemArray = (w.device d).itemArray ++ [upload.item imageLink]) := by
  refine ⟨fun d => (exclusive_run hg hr d).one, fun d i imageLink accepted w' hs => ?_⟩
  have hrunning : (w.device d).running = true :=
    Event.running_of_enabled (World.step_eq_some.mp hs).1 nofun
  obtain ⟨c, ho, rfl⟩ := World.step_outcome hs
  rw [World.put_device_self, World.put_server]
  cases ho with
  | @uploaded i accepted upload imageLink uid hl hu =>
    obtain ⟨uid', hu', hsaved⟩ := (exclusive_run hg hr d).owner upload (List.mem_of_getElem? hl)
    have huid : uid' = uid := Option.some.inj (hu'.symm.trans hu)
    exact ⟨upload, uid, hl, huid ▸ hsaved, hu, hrunning, rfl, rfl⟩
  | @uploadOrphaned i accepted upload imageLink hl hu =>
    obtain ⟨uid, hu', -⟩ := (exclusive_run hg hr d).owner upload (List.mem_of_getElem? hl)
    cases hu'.symm.trans hu

def linkDue : List (DeviceId × Event) :=
  [(0, .launch), (0, .register ['u'] true), (0, .save ⟨['x'], ['1'], some ⟨['n'], true⟩⟩ true),
    (0, .putData 0 true)]

theorem upload_lands_linkDue : ∃ w w' upload uid, Runs.run World.step {} linkDue = some w ∧
    w.step (0, .downloadURL 0 (some ['l']) true) = some w' ∧
    (w.device 0).uploads[0]? = some upload ∧ upload.savedBy = some uid ∧ (w.device 0).currentUser = some uid ∧
    (w'.device 0).running = true ∧ (w'.device 0).itemArray = [⟨['x'], ['1'], ['l'], ['n']⟩] ∧
    itemsOf w'.server.users ['u'] = some [convertItemToString ⟨['x'], ['1'], ['l'], ['n']⟩] := by
  have hg : Runs.Along World.step (fun w de _ => w.Gated de) {} linkDue := by decide
  obtain ⟨w, hw, w', hs, hrows, hstored⟩ : ∃ w, Runs.run World.step {} linkDue = some w ∧
      ∃ w', w.step (0, .downloadURL 0 (some ['l']) true) = some w' ∧
        (w'.device 0).itemArray = [⟨['x'], ['1'], ['l'], ['n']⟩] ∧
        itemsOf w'.server.users ['u'] = some [convertItemToString ⟨['x'], ['1'], ['l'], ['n']⟩] := by decide
  obtain ⟨upload, uid, hl, hsaved, hu, hrunning, -⟩ := (upload_lands linkDue w hg hw).2 0 0 ['l'] true w' hs
  exact ⟨w, w', upload, uid, hw, hs, hl, hsaved, hu, hrunning, hrows, hstored⟩

end ShoppingList

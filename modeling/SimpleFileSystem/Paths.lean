import SimpleFileSystem.RequestView
import Mathlib.Data.List.DropRight

/-!
# Paths and names

The root directory is the only one, so the path of a file is a slash and a name, and the
requests find the name with `dirname` and `basename`.  `pathName` is what they make of a
path.  A name goes through two fixed buffers of 256 bytes, once when it is stored and once
when it is compared, and `cString_strncpy256` is that it comes out as it went in.
-/

namespace SimpleFileSystem

/-- A name that a file may have: 1 to 255 bytes, none of them a slash or zero. -/
structure FileName (name : CString) : Prop where
  nonempty : name ≠ []
  short : name.length ≤ 255
  noSlash : slash ∉ name
  noZero : 0 ∉ name

/-- What the requests make of a path: the name, or what they return. -/
def pathName (path : CString) : ℤ ⊕ CString :=
  if dirname path ≠ [slash] then .inl (-enoent)
  else if 255 < (basename (path.take pathMax)).length then .inl (-enametoolong)
  else .inr (basename (path.take pathMax))

/-- What the requests find out of a path, if there is memory for a copy of it. -/
theorem splitPath_run {F : Type} (fs : Filesystem F) (path : CString) : (splitPath path).run fs =
    .done (if fs.host.mallocs 0 then pathName path else .inl (-enoent)) fs.malloced := by
  rw [splitPath, Run.run_bind, malloc_run, Run.andThen_done]
  cases fs.host.mallocs 0 with
  | false => rfl
  | true =>
    rw [if_neg (by simp), if_pos rfl, pathName]
    by_cases hdir : dirname path ≠ [slash]
    · rw [if_pos hdir, if_pos hdir, Run.run_pure]
    rw [if_neg hdir, if_neg hdir]
    by_cases hlong : 255 < (basename (path.take pathMax)).length
    · rw [if_pos hlong, if_pos hlong, Run.run_pure]
    · rw [if_neg hlong, if_neg hlong, Run.run_pure]

theorem splitPath_ensures {fs : Filesystem DirFiles} {w : View} (h : Shows fs w)
    (path : CString) :
    Run.Ensures (splitPath path) fs fun answer fs' => answer = pathName path ∧ Shows fs' w := by
  have hmalloced := (h.malloc_ensures.post (malloc_run fs)).2
  refine Run.Ensures.of_eq (splitPath_run fs path) ⟨?_, hmalloced⟩
  rw [if_pos (h.memory 0)]

/-! ## Splitting a path -/

section Split

variable {name path : CString}

theorem rdropWhile_slash (h : FileName name) :
    List.rdropWhile (fun b => decide (b = slash)) (slash :: name) = slash :: name := by
  rw [List.rdropWhile_eq_self_iff]
  intro _
  rw [List.getLast_cons h.nonempty, decide_eq_true_iff]
  intro e
  exact h.noSlash (e ▸ List.getLast_mem h.nonempty)

/-- **The directory of a file** is the root directory. -/
theorem dirname_file (h : FileName name) : dirname (slash :: name) = [slash] := by
  have hall : ∀ b ∈ name.reverse, decide (b ≠ slash) = true := fun b hb =>
    decide_eq_true fun e => h.noSlash (e ▸ List.mem_reverse.mp hb)
  have hdir : List.rdropWhile (fun b => decide (b ≠ slash)) (slash :: name) = [slash] := by
    rw [List.rdropWhile, List.reverse_cons, List.dropWhile_append_of_pos hall]
    rfl
  rw [dirname, rdropWhile_slash h]
  rw [if_neg (List.cons_ne_nil _ _), hdir]
  rfl

/-- **The name of a file** is what its path ends in. -/
theorem basename_file (h : FileName name) : basename (slash :: name) = name := by
  have hall : ∀ b ∈ name.reverse, decide (b ≠ slash) = true := fun b hb =>
    decide_eq_true fun e => h.noSlash (e ▸ List.mem_reverse.mp hb)
  rw [basename, rdropWhile_slash h]
  rw [if_neg (List.cons_ne_nil _ _), if_neg (List.cons_ne_nil _ _), List.rtakeWhile,
    List.reverse_cons, List.takeWhile_append_of_pos hall]
  simp

theorem pathName_file (h : FileName name) : pathName (slash :: name) = .inr name := by
  have htake : (slash :: name).take pathMax = slash :: name := by
    refine List.take_of_length_le ?_
    have hshort := h.short
    rw [List.length_cons]
    unfold pathMax
    omega
  rw [pathName, if_neg (not_not.mpr (dirname_file h)), htake, basename_file h,
    if_neg (Nat.not_lt.mpr h.short)]

/-- What is true of every name that a path has. -/
theorem basename_ne_nil (path : CString) : basename path ≠ [] := by
  rw [basename]
  split
  · exact List.cons_ne_nil _ _
  · split
    · exact List.cons_ne_nil _ _
    · next h =>
      intro hnil
      rw [List.rtakeWhile_eq_nil_iff] at hnil
      have hlast := List.rdropWhile_last_not (fun b => decide (b = slash)) path h
      have hslash := hnil h
      simp at hlast hslash
      exact hlast hslash

theorem basename_subset (path : CString) : ∀ b ∈ basename path, b = 46 ∨ b = slash ∨ b ∈ path := by
  intro b hb
  rw [basename] at hb
  split at hb
  · exact Or.inl (List.mem_singleton.mp hb)
  · split at hb
    · exact Or.inr (Or.inl (List.mem_singleton.mp hb))
    · have hmem := (List.rtakeWhile_suffix _ _).subset hb
      exact Or.inr (Or.inr ((List.rdropWhile_prefix _ path).subset hmem))

theorem pathName_short (h : pathName path = .inr name) :
    name.length ≤ 255 := by
  unfold pathName at h
  split at h
  · cases h
  · split at h
    · cases h
    · next hshort =>
      cases h
      exact Nat.not_lt.mp hshort

theorem pathName_ne_nil (h : pathName path = .inr name) : name ≠ [] := by
  unfold pathName at h
  split at h
  · cases h
  · split at h
    · cases h
    · cases h
      exact basename_ne_nil _

theorem pathName_zero (h : pathName path = .inr name) (hzero : 0 ∉ path) :
    0 ∉ name := by
  unfold pathName at h
  split at h
  · cases h
  · split at h
    · cases h
    · cases h
      intro hmem
      rcases basename_subset _ 0 hmem with e | e | hpath
      · cases e
      · cases e
      · exact hzero (List.take_subset _ _ hpath)

end Split

/-! ## Storing a name -/

/-- **A name comes out of its buffer as it went in.** -/
theorem cString_strncpy256 {name : CString} (hshort : name.length ≤ 255) (hzero : 0 ∉ name) :
    cString (strncpy256 name) = name := by
  have hbuffer : List.ofFn (strncpy256 name) = name ++ List.replicate (256 - name.length) 0 := by
    refine List.ext_getElem ?_ fun i hi _ => ?_
    · rw [List.length_ofFn, List.length_append, List.length_replicate]
      omega
    rw [List.getElem_ofFn]
    show name.getD i 0 = _
    by_cases hlt : i < name.length
    · rw [List.getElem_append_left hlt, List.getD_eq_getElem?_getD, List.getElem?_eq_getElem hlt,
        Option.getD_some]
    · rw [List.getElem_append_right (Nat.not_lt.mp hlt), List.getElem_replicate,
        List.getD_eq_getElem?_getD, List.getElem?_eq_none (Nat.not_lt.mp hlt), Option.getD_none]
  have hname : ∀ b ∈ name, decide (b ≠ 0) = true := fun b hb =>
    decide_eq_true fun e => hzero (e ▸ hb)
  have hrest : (List.replicate (256 - name.length) (0 : UInt8)).takeWhile (· ≠ 0) = [] := by
    obtain ⟨n, hn⟩ := Nat.exists_eq_add_one_of_ne_zero (n := 256 - name.length) (by omega)
    rw [hn]
    rfl
  rw [cString, hbuffer, List.takeWhile_append_of_pos hname, hrest, List.append_nil]

end SimpleFileSystem

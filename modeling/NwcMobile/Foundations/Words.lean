import Mathlib.Tactic

/-!
Texts as words. A text is cut at its separators into words; joining the words by
one separator is its normal form. The loop that writes the normal form from left
to right, holding a separator back until the next word starts, stops once enough
is written.
-/

namespace Words

universe u

variable {α : Type u} (isSep : α → Bool) (sep : α)

/-- The maximal runs of a text without a separator. -/
def words (xs : List α) : List (List α) := (xs.splitOnP isSep).filter fun word => !word.isEmpty

/-- The words of a text joined by one separator. -/
def spaced (xs : List α) : List α := List.intercalate [sep] (words isSep xs)

/-- The first `maximum` elements; a separator at the end is kept with what follows it. -/
def cut [DecidableEq α] (maximum : Nat) (xs : List α) : List α :=
  xs.take (if xs[maximum - 1]? = some sep then maximum + 1 else maximum)

/-- Write the normal form of a text behind what is written already, up to a length. -/
def gather (maximum : Nat) (written : List α) (pending : Bool) : List α → List α
  | [] => written
  | c :: rest =>
    if isSep c then gather maximum written (!written.isEmpty) rest
    else if maximum ≤ written.length then written
    else gather maximum ((if pending then written ++ [sep] else written) ++ [c]) false rest

/-- What the loop appends when no length stops it. -/
private def appended (started pending : Bool) : List α → List α
  | [] => []
  | c :: rest =>
    if isSep c then appended started started rest
    else (if pending then [sep] else []) ++ c :: appended true false rest

section Normal

variable {isSep sep}

theorem words_sep {c : α} {xs : List α} (h : isSep c = true) :
    words isSep (c :: xs) = words isSep xs := by
  simp [words, List.splitOnP_cons_eq_if_modifyHead, h]

theorem splitOnP_free {xs piece : List α} (h : piece ∈ xs.splitOnP isSep) :
    ∀ c ∈ piece, isSep c = false := by
  induction xs generalizing piece with
  | nil =>
    simp only [List.splitOnP_nil, List.mem_singleton] at h
    simp [h]
  | cons x xs ih =>
    obtain ⟨first, rest, hsplit⟩ := List.exists_cons_of_ne_nil (List.splitOnP_ne_nil isSep xs)
    rw [List.splitOnP_cons_eq_if_modifyHead] at h
    rw [hsplit] at h ih
    by_cases hx : isSep x = true
    · rw [if_pos hx, List.mem_cons] at h
      cases h with
      | inl hempty => simp [hempty]
      | inr hpiece => exact ih hpiece
    · rw [if_neg hx, List.modifyHead_cons, List.mem_cons] at h
      cases h with
      | inl hfirst =>
        rw [hfirst, List.forall_mem_cons]
        exact ⟨Bool.eq_false_iff.mpr hx, ih List.mem_cons_self⟩
      | inr hpiece => exact ih (List.mem_cons_of_mem first hpiece)

theorem mem_words {xs word : List α} (h : word ∈ words isSep xs) :
    word ≠ [] ∧ ∀ c ∈ word, isSep c = false := by
  rw [words, List.mem_filter] at h
  exact ⟨by simpa using h.2, splitOnP_free h.1⟩

theorem words_eq_singleton {xs : List α} (hne : xs ≠ []) (h : ∀ c ∈ xs, isSep c = false) :
    words isSep xs = [xs] := by
  simp [words, List.splitOnP_eq_singleton h, hne]

theorem words_append_sep {xs ys : List α} (hsep : isSep sep = true) :
    words isSep (xs ++ sep :: ys) = words isSep xs ++ words isSep ys := by
  simp only [words, List.splitOnP_append_cons xs ys hsep, List.filter_append]

/-- The words of joined texts are the words of each. -/
theorem words_intercalate {texts : List (List α)} (hsep : isSep sep = true) :
    words isSep (List.intercalate [sep] texts) = texts.flatMap (words isSep) := by
  induction texts with
  | nil => simp [words]
  | cons text texts ih =>
    cases texts with
    | nil => simp
    | cons next texts =>
      rw [List.intercalate_cons_cons, List.append_assoc, List.singleton_append,
        words_append_sep hsep, ih]
      simp

theorem spaced_words {word : List α} {rest : List (List α)} :
    List.intercalate [sep] (word :: rest) = word ++ rest.flatMap (sep :: ·) := by
  induction rest generalizing word with
  | nil => simp
  | cons next rest ih =>
    rw [List.intercalate_cons_cons, ih, List.flatMap_cons]
    simp

private theorem appended_spec (xs : List α) :
    appended isSep sep true true xs = (words isSep xs).flatMap (sep :: ·) ∧
      appended isSep sep false false xs = spaced isSep sep xs ∧
      ∀ first rest, xs.splitOnP isSep = first :: rest →
        appended isSep sep true false xs =
          first ++ (rest.filter fun word => !word.isEmpty).flatMap (sep :: ·) := by
  induction xs with
  | nil => simp [appended, words, spaced]
  | cons c xs ih =>
    obtain ⟨hpending, hfresh, hinside⟩ := ih
    obtain ⟨first, rest, hsplit⟩ := List.exists_cons_of_ne_nil (List.splitOnP_ne_nil isSep xs)
    by_cases hsep : isSep c = true
    · refine ⟨?_, ?_, ?_⟩
      · rw [words_sep hsep, ← hpending]
        simp [appended, hsep]
      · rw [spaced, words_sep hsep, ← spaced, ← hfresh]
        simp [appended, hsep]
      · intro word others hcons
        rw [List.splitOnP_cons_eq_if_modifyHead, if_pos hsep] at hcons
        obtain ⟨rfl, rfl⟩ := List.cons.inj hcons
        rw [List.nil_append, ← words, ← hpending]
        simp [appended, hsep]
    · have hwords : words isSep (c :: xs) =
          (c :: first) :: rest.filter fun word => !word.isEmpty := by
        simp [words, List.splitOnP_cons_eq_if_modifyHead, hsep, hsplit]
      have htail := hinside first rest hsplit
      refine ⟨?_, ?_, ?_⟩
      · rw [hwords, List.flatMap_cons, appended, if_neg hsep, htail]
        simp
      · rw [spaced, hwords, spaced_words, appended, if_neg hsep, htail]
        simp
      · intro word others hcons
        rw [List.splitOnP_cons_eq_if_modifyHead, if_neg hsep, hsplit] at hcons
        obtain ⟨rfl, rfl⟩ := List.cons.inj hcons
        rw [appended, if_neg hsep, htail]
        simp

end Normal

section Ends

variable {isSep sep} {maximum : Nat}

/-- What the loop writes neither starts nor ends with a separator. -/
theorem gather_trimmed {written xs : List α} {pending : Bool}
    (hpending : pending = true → written ≠ [])
    (hhead : ∀ c ∈ written.head?, isSep c = false)
    (hlast : ∀ c ∈ written.getLast?, isSep c = false) :
    (∀ c ∈ (gather isSep sep maximum written pending xs).head?, isSep c = false) ∧
      ∀ c ∈ (gather isSep sep maximum written pending xs).getLast?, isSep c = false := by
  induction xs generalizing written pending with
  | nil => exact ⟨hhead, hlast⟩
  | cons c rest ih =>
    by_cases hc : isSep c = true
    · rw [gather, if_pos hc]
      apply ih _ hhead hlast
      intro hstarted hnil
      simp [hnil] at hstarted
    · rw [gather, if_neg hc]
      split
      · exact ⟨hhead, hlast⟩
      · apply ih
        · nofun
        · cases written with
          | nil =>
            cases pending with
            | false => simpa using hc
            | true => exact absurd rfl (hpending rfl)
          | cons first others =>
            cases pending <;> simpa using hhead
        · intro last hlast'
          rw [List.getLast?_concat] at hlast'
          cases hlast'
          simpa using hc

end Ends

section Loop

variable {isSep sep} [DecidableEq α] {maximum : Nat}

/-- What is written ends with a word, and one element too many was written together with
the separator before it. -/
private structure Writing (isSep : α → Bool) (sep : α) (maximum : Nat) (written : List α) :
    Prop where
  bounded : written.length ≤ maximum + 1
  ends : ∀ c ∈ written.getLast?, isSep c = false
  spare : written.length = maximum + 1 → written[maximum - 1]? = some sep

private theorem Writing.append {written : List α} {c : α} (pending : Bool)
    (hpending : pending = true → written ≠ []) (hc : isSep c = false)
    (hroom : written.length < maximum) :
    Writing isSep sep maximum ((if pending then written ++ [sep] else written) ++ [c]) := by
  refine ⟨?_, ?_, ?_⟩
  · split <;> simp <;> omega
  · intro last hlast
    rw [List.getLast?_concat] at hlast
    cases hlast
    exact hc
  · intro hlength
    cases pending with
    | false =>
      simp at hlength
      omega
    | true =>
      simp at hlength
      have hlast : maximum - 1 = written.length := by omega
      rw [if_pos rfl, hlast]
      simp

private theorem gather_eq (hsep : isSep sep = true) (hmaximum : 0 < maximum) (xs written : List α)
    (pending : Bool) (hpending : pending = true → written ≠ [])
    (hwritten : Writing isSep sep maximum written) :
    gather isSep sep maximum written pending xs =
      cut sep maximum (written ++ appended isSep sep (!written.isEmpty) pending xs) := by
  induction xs generalizing written pending with
  | nil =>
    rw [gather, appended, List.append_nil, cut]
    split
    · rw [List.take_of_length_le hwritten.bounded]
    · rename_i hspare
      have hlength : written.length ≠ maximum + 1 := fun h => hspare (hwritten.spare h)
      have hbounded := hwritten.bounded
      rw [List.take_of_length_le (by omega)]
  | cons c rest ih =>
    by_cases hc : isSep c = true
    · rw [gather, if_pos hc, appended, if_pos hc]
      apply ih _ _ _ hwritten
      intro hstarted hnil
      simp [hnil] at hstarted
    · rw [gather, if_neg hc]
      by_cases hfull : maximum ≤ written.length
      · rw [if_pos hfull, cut, List.getElem?_append_left (by omega)]
        have hbounded := hwritten.bounded
        split
        · rename_i hspare
          have hlength : written.length = maximum + 1 := by
            by_contra hne
            have hlast : written.getLast? = some sep := by
              rw [List.getLast?_eq_getElem?, ← hspare]
              congr 1
              omega
            rw [hwritten.ends sep hlast] at hsep
            cases hsep
          rw [List.take_left' hlength]
        · rename_i hspare
          have hlength : written.length ≠ maximum + 1 := fun h => hspare (hwritten.spare h)
          rw [List.take_left' (by omega)]
      · have hstarted : ((if pending then written ++ [sep] else written) ++ [c]).isEmpty = false := by
          simp
        rw [if_neg hfull, ih _ false nofun (.append pending hpending (by simpa using hc) (by omega)),
          hstarted, appended, if_neg hc]
        cases pending <;> simp

/-- The loop writes the normal form of the text, cut to its length. -/
theorem gather_eq_cut (hsep : isSep sep = true) (hmaximum : 0 < maximum) (xs : List α) :
    gather isSep sep maximum [] false xs = cut sep maximum (spaced isSep sep xs) := by
  rw [gather_eq hsep hmaximum xs [] false nofun ⟨by simp, by simp, by simp⟩]
  exact congrArg _ (appended_spec xs).2.1

/-- The normal form itself is what the loop writes when there is room. -/
theorem spaced_eq_gather (hsep : isSep sep = true) (xs : List α) :
    spaced isSep sep xs = gather isSep sep ((spaced isSep sep xs).length + 1) [] false xs := by
  rw [gather_eq_cut hsep (Nat.succ_pos _), cut, List.take_of_length_le]
  split <;> omega

theorem spaced_trimmed (hsep : isSep sep = true) (xs : List α) :
    (∀ c ∈ (spaced isSep sep xs).head?, isSep c = false) ∧
      ∀ c ∈ (spaced isSep sep xs).getLast?, isSep c = false := by
  rw [spaced_eq_gather hsep]
  exact gather_trimmed nofun (by simp) (by simp)

/-- One element too many is written exactly where the normal form has a separator at the last
place. -/
theorem length_gather_le_iff (hsep : isSep sep = true) (xs : List α) :
    (gather isSep sep maximum [] false xs).length ≤ maximum ↔
      (spaced isSep sep xs)[maximum - 1]? ≠ some sep := by
  obtain ⟨hhead, hlast⟩ := spaced_trimmed hsep xs
  rcases Nat.eq_zero_or_pos maximum with rfl | hpos
  · have hnone : gather isSep sep 0 [] false xs = [] := by
      induction xs with
      | nil => rfl
      | cons c rest ih =>
        rw [gather]
        split
        · apply ih
          · exact (spaced_trimmed hsep rest).1
          · exact (spaced_trimmed hsep rest).2
        · simp
    constructor
    · intro _ hfirst
      have hsep' := hhead sep (by rw [List.head?_eq_getElem?]; exact hfirst)
      rw [hsep] at hsep'
      cases hsep'
    · intro _
      rw [hnone, List.length_nil]
  · rw [gather_eq_cut hsep hpos, cut]
    split
    · rename_i hspare
      have hlong : maximum < (spaced isSep sep xs).length := by
        obtain ⟨hplace, -⟩ := List.getElem?_eq_some_iff.mp hspare
        by_contra hshort
        have hend : (spaced isSep sep xs).getLast? = some sep := by
          rw [List.getLast?_eq_getElem?, ← hspare]
          congr 1
          omega
        rw [hlast sep hend] at hsep
        cases hsep
      rw [List.length_take]
      constructor
      · intro hle
        omega
      · exact fun hne => absurd hspare hne
    · rename_i hfree
      rw [List.length_take]
      constructor
      · exact fun _ => hfree
      · intro _
        omega

end Loop

section Written

variable {isSep sep} {maximum : Nat}

/-- The texts that the loop can have written: each step writes an element of a word, after a
separator if one was held back. -/
inductive Written (isSep : α → Bool) (sep : α) (maximum : Nat) : List α → Prop
  | nil : Written isSep sep maximum []
  | adjoin {written c} (earlier : Written isSep sep maximum written) (hc : isSep c = false)
      (room : written.length < maximum) : Written isSep sep maximum (written ++ [c])
  | separate {written c} (earlier : Written isSep sep maximum written) (started : written ≠ [])
      (hc : isSep c = false) (room : written.length < maximum) :
      Written isSep sep maximum (written ++ [sep] ++ [c])

theorem Written.gather {written : List α} (h : Written isSep sep maximum written) {pending : Bool}
    (hpending : pending = true → written ≠ []) (xs : List α) :
    Written isSep sep maximum (gather isSep sep maximum written pending xs) := by
  induction xs generalizing written pending with
  | nil => exact h
  | cons c rest ih =>
    rw [Words.gather]
    split
    · apply ih h
      intro hstarted hnil
      simp [hnil] at hstarted
    · rename_i hc
      rw [Bool.not_eq_true] at hc
      split
      · exact h
      · rename_i hroom
        have hwritten : Written isSep sep maximum
            ((if pending then written ++ [sep] else written) ++ [c]) := by
          cases pending with
          | false => exact .adjoin h hc (Nat.lt_of_not_le hroom)
          | true => exact .separate h (hpending rfl) hc (Nat.lt_of_not_le hroom)
        exact ih hwritten (by simp)

theorem gather_written (xs : List α) :
    Written isSep sep maximum (gather isSep sep maximum [] false xs) :=
  Written.nil.gather (by simp) xs

theorem Written.ends {written : List α} (h : Written isSep sep maximum written) :
    ∀ c ∈ written.getLast?, isSep c = false := by
  cases h with
  | nil => simp
  | adjoin earlier hc room => simpa using hc
  | separate earlier started hc room => simpa using hc

theorem Written.separators {written : List α} (h : Written isSep sep maximum written) :
    ∀ c ∈ written, isSep c = true → c = sep := by
  induction h with
  | nil => simp
  | adjoin earlier hc room ih =>
    rw [List.forall_mem_append, List.forall_mem_singleton]
    refine ⟨ih, ?_⟩
    rw [hc]
    nofun
  | separate earlier started hc room ih =>
    rw [List.forall_mem_append, List.forall_mem_append, List.forall_mem_singleton,
      List.forall_mem_singleton]
    refine ⟨⟨ih, fun _ => rfl⟩, ?_⟩
    rw [hc]
    nofun

/-- No two separators stand side by side. -/
theorem Written.single {written : List α} (h : Written isSep sep maximum written) :
    written.IsChain fun a b => isSep a = false ∨ isSep b = false := by
  induction h with
  | nil => exact .nil
  | adjoin earlier hc room ih =>
    apply ih.append (.singleton _)
    intro a ha b hb
    cases hb
    exact Or.inr hc
  | separate earlier started hc room ih =>
    apply List.IsChain.append
    · apply ih.append (.singleton _)
      intro a ha b hb
      exact Or.inl (earlier.ends a ha)
    · exact .singleton _
    · intro a ha b hb
      cases hb
      exact Or.inr hc

/-- Reading what was written, the loop writes it again. -/
theorem Written.replay (hsep : isSep sep = true) {written : List α}
    (h : Written isSep sep maximum written) (xs : List α) :
    Words.gather isSep sep maximum [] false (written ++ xs) =
      Words.gather isSep sep maximum written false xs := by
  induction h generalizing xs with
  | nil => rfl
  | adjoin earlier hc room ih =>
    rw [List.append_assoc, ih, List.singleton_append, Words.gather, if_neg (by simp [hc]),
      if_neg (Nat.not_le.mpr room)]
    rfl
  | separate earlier started hc room ih =>
    rw [List.append_assoc, List.append_assoc, ih, List.singleton_append, List.singleton_append,
      Words.gather, if_pos hsep, Words.gather, if_neg (by simp [hc]), if_neg (Nat.not_le.mpr room)]
    simp [started]

theorem gather_idem (hsep : isSep sep = true) (xs : List α) :
    gather isSep sep maximum [] false (gather isSep sep maximum [] false xs) =
      gather isSep sep maximum [] false xs := by
  have hwritten : Written isSep sep maximum (gather isSep sep maximum [] false xs) :=
    gather_written xs
  have hreplay := hwritten.replay hsep []
  rwa [List.append_nil] at hreplay

theorem mem_gather {written xs : List α} {pending : Bool} {c : α}
    (h : c ∈ gather isSep sep maximum written pending xs) : c ∈ written ∨ c = sep ∨ c ∈ xs := by
  induction xs generalizing written pending with
  | nil => exact Or.inl h
  | cons x rest ih =>
    rw [gather] at h
    split at h
    · rcases ih h with hold | hsep | hrest
      · exact Or.inl hold
      · exact Or.inr (Or.inl hsep)
      · exact Or.inr (Or.inr (List.mem_cons_of_mem x hrest))
    · split at h
      · exact Or.inl h
      · rcases ih h with hold | hsep | hrest
        · cases pending with
          | false =>
            rw [if_neg (by decide), List.mem_append, List.mem_singleton] at hold
            rcases hold with hold | rfl
            · exact Or.inl hold
            · exact Or.inr (Or.inr List.mem_cons_self)
          | true =>
            rw [if_pos rfl, List.mem_append, List.mem_append, List.mem_singleton,
              List.mem_singleton] at hold
            rcases hold with (hold | hsep) | rfl
            · exact Or.inl hold
            · exact Or.inr (Or.inl hsep)
            · exact Or.inr (Or.inr List.mem_cons_self)
        · exact Or.inr (Or.inl hsep)
        · exact Or.inr (Or.inr (List.mem_cons_of_mem x hrest))

/-- The loop keeps the elements of words in order and drops none but at the end. -/
theorem gather_words (maximum : Nat) (hsep : isSep sep = true) (written : List α) (pending : Bool)
    (xs : List α) :
    ∃ kept, kept <+: xs.filter (fun c => !isSep c) ∧
      (gather isSep sep maximum written pending xs).filter (fun c => !isSep c) =
        written.filter (fun c => !isSep c) ++ kept := by
  induction xs generalizing written pending with
  | nil => exact ⟨[], List.nil_prefix, (List.append_nil _).symm⟩
  | cons c rest ih =>
    rw [gather]
    split
    · rename_i hc
      obtain ⟨kept, hkept, hfilter⟩ := ih written (!written.isEmpty)
      rw [List.filter_cons_of_neg (by simp [hc])]
      exact ⟨kept, hkept, hfilter⟩
    · rename_i hc
      rw [List.filter_cons_of_pos (by simpa using hc)]
      split
      · exact ⟨[], List.nil_prefix, (List.append_nil _).symm⟩
      · obtain ⟨kept, hkept, hfilter⟩ :=
          ih ((if pending then written ++ [sep] else written) ++ [c]) false
        refine ⟨c :: kept, List.cons_prefix_cons.mpr ⟨rfl, hkept⟩, ?_⟩
        rw [hfilter, List.filter_append, List.filter_singleton]
        cases pending <;> simp [List.filter_append, hc, hsep]

end Written

/-- Lower case letter by letter. -/
theorem toList_toLower (text : String) : text.toLower.toList = text.toList.map Char.toLower :=
  String.toList_map

end Words

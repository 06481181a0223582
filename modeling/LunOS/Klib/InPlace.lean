import LunOS.Klib.Strings
import LunOS.Utils.Buffers

/-!
# Strings in memory

`kstrndup` and `kstrtok_r` on the bytes of a buffer. A pointer is an index, and a read or write
outside of the buffer is an error.

- `kstrndup_inside_iff`: when `kstrndup` stays inside of its source.
- `kstrtokR_fields`: the tokens are the fields between delimiters.
- `kstrndup_holds`, `cut_string`: the functions on lists are these, where they stay inside.
-/

namespace LunOS.Klib.InPlace
open LunOS.Buffers Function List

/-! ## Copies -/

/-- `for(i = 0; i < n && *str != '\0'; i++) tmp[i] = str[i];` with `turns` turns left until `i` is
`n`. The condition reads the first byte of `str` in every turn. -/
def kstrndupLoop (str : List UInt8) : ℕ → ℕ → (ℕ → UInt8) → Except Object (ℕ × (ℕ → UInt8))
  | 0, i, tmp => .ok (i, tmp)
  | turns + 1, i, tmp => do
    let first ← read .str str 0
    if first = 0 then .ok (i, tmp)
    else do
      let c ← read .str str i
      kstrndupLoop str turns (i + 1) (update tmp i c)

/-- `kstrndup`; `tmp` is what `kmalloc(n + 1)` returned, with the memory behind it. -/
def kstrndup (str : Option (List UInt8)) (n : ℕ) (tmp : Option (ℕ → UInt8)) :
    Except Object (Option (ℕ → UInt8)) :=
  match str, tmp with
  | none, _ => .ok none
  | some _, none => .ok none
  | some str, some tmp => do
    let (i, tmp) ← kstrndupLoop str n 0 tmp
    return some (update tmp i 0)

/-- Memory holds this string and its terminator. -/
def HoldsString (m : ℕ → UInt8) (s : CString) : Prop :=
  (∀ i c, s[i]? = some c → m i = c) ∧ m s.length = 0

/-- With a first byte that is no terminator the loop goes through all its turns. -/
lemma kstrndupLoop_ok {a : UInt8} (str : List UInt8) (ha : a ≠ 0) {turns i : ℕ}
    (hturns : i + turns ≤ (a :: str).length) (tmp : ℕ → UInt8) :
    ∃ dup, kstrndupLoop (a :: str) turns i tmp = .ok (i + turns, dup) ∧
      (∀ j < i, dup j = tmp j) ∧
      ∀ j c, i ≤ j → j < i + turns → (a :: str)[j]? = some c → dup j = c := by
  induction turns generalizing i tmp with
  | zero => exact ⟨tmp, rfl, fun _ _ => rfl, fun j c hj hj' => absurd hj' (by omega)⟩
  | succ turns ih =>
    have hread := List.getElem?_eq_getElem (l := a :: str) (i := i) (by omega)
    obtain ⟨dup, hloop, hbelow, hcopied⟩ :=
      ih (i := i + 1) (by omega) (update tmp i (a :: str)[i])
    refine ⟨dup, ?_, fun j hj => ?_, fun j c hj hj' hc => ?_⟩
    · rw [kstrndupLoop, read_zero, ok_bind, if_neg ha, read_of_getElem? hread, ok_bind, hloop,
        show i + 1 + turns = i + (turns + 1) by omega]
    · rw [hbelow j (by omega), update_of_ne (by omega)]
    · by_cases hij : j = i
      · rw [hij] at hc ⊢
        rw [hbelow i (by omega), update_self]
        exact Option.some.inj (hread.symm.trans hc)
      · exact hcopied j c (by omega) (by omega) hc

/-- The loop leaves the buffer when it has more turns than there are bytes. -/
lemma kstrndupLoop_error {a : UInt8} {str : List UInt8} (ha : a ≠ 0) {turns i : ℕ}
    (hi : i ≤ (a :: str).length) (hturns : (a :: str).length < i + turns) (tmp : ℕ → UInt8) :
    kstrndupLoop (a :: str) turns i tmp = .error .str := by
  induction turns generalizing i tmp with
  | zero => exact absurd hturns (by omega)
  | succ turns ih =>
    rw [kstrndupLoop, read_zero, ok_bind, if_neg ha]
    by_cases hlast : i = (a :: str).length
    · rw [read_of_le (by omega), error_bind]
    · rw [read_of_getElem? (List.getElem?_eq_getElem (by omega)), ok_bind]
      exact ih (by omega) (by omega) _

/-- Where the buffer goes on far enough, the copy is the one of the function on lists. -/
lemma kstrndup_holds {str : List UInt8} (more : List UInt8) {n : ℕ}
    (hn : str = [] ∨ n ≤ str.length + 1 + more.length) (tmp : ℕ → UInt8) (h0 : 0 ∉ str) :
    ∃ dup, kstrndup (some (str ++ 0 :: more)) n (some tmp) = .ok (some dup) ∧
      HoldsString dup (Klib.kstrndup str n) := by
  unfold kstrndup Klib.kstrndup
  cases str with
  | nil =>
    refine ⟨update tmp 0 0, ?_, fun i c hc => absurd hc (by simp), by simp⟩
    cases n with
    | zero => rfl
    | succ n => rfl
  | cons a str =>
    have ha : a ≠ 0 := fun heq => h0 (heq ▸ mem_cons_self)
    have hn : n ≤ (a :: str).length + 1 + more.length := hn.resolve_left (cons_ne_nil _ _)
    have hturns : 0 + n ≤ (a :: (str ++ 0 :: more)).length := by
      simp only [length_cons, length_append] at hn ⊢
      omega
    obtain ⟨dup, hloop, -, hcopied⟩ := kstrndupLoop_ok (str ++ 0 :: more) ha hturns tmp
    rw [Nat.zero_add] at hloop hcopied
    refine ⟨update dup n 0, ?_, fun i c hc => ?_, ?_⟩
    · rw [cons_append]
      simp only [hloop, ok_bind]
      rfl
    · rw [List.getElem?_take] at hc
      split_ifs at hc with hi
      rw [update_of_ne (by omega)]
      refine hcopied i c (Nat.zero_le i) hi ?_
      rw [← cons_append, List.getElem?_append_left (List.getElem?_eq_some_iff.mp hc).1]
      exact hc
    · rw [length_take]
      by_cases hlong : n ≤ (a :: str).length
      · rw [min_eq_left hlong, update_self]
      · -- the terminator was copied with the string
        rw [min_eq_right (by omega), update_of_ne (by omega)]
        refine hcopied _ 0 (Nat.zero_le _) (by omega) ?_
        rw [← cons_append]
        simp

/-- A copy of a string that ends with its buffer stays inside of the buffer, and is the beginning of
the string, exactly when the string is empty or `n` is at most one larger than its length. -/
theorem kstrndup_inside_iff {str : CString} (h0 : 0 ∉ str) (n : ℕ) (tmp : ℕ → UInt8) :
    (∃ dup, kstrndup (some (str ++ [0])) n (some tmp) = .ok (some dup) ∧
      HoldsString dup (str.take n)) ↔ str = [] ∨ n ≤ str.length + 1 := by
  constructor
  · rintro ⟨dup, hdup, -⟩
    by_contra hnot
    obtain ⟨hne, hn⟩ := not_or.mp hnot
    obtain ⟨a, str, rfl⟩ := exists_cons_of_ne_nil hne
    have ha : a ≠ 0 := fun heq => h0 (heq ▸ mem_cons_self)
    have hloop : kstrndupLoop (a :: (str ++ [0])) n 0 tmp = .error .str :=
      kstrndupLoop_error ha (Nat.zero_le _)
        (by simp only [length_cons, length_append, length_nil] at hn ⊢; omega) tmp
    unfold kstrndup at hdup
    rw [cons_append] at hdup
    simp only [hloop, error_bind] at hdup
    cases hdup
  · intro hn
    exact kstrndup_holds [] (by simpa using hn) tmp h0

/-- The string "a" with `n = 2`. -/
theorem kstrndup_inside_short :
    ∃ dup, kstrndup (some [97, 0]) 2 (some fun _ => 0xFF) = .ok (some dup) ∧
      HoldsString dup [97] := by
  have h0 : 0 ∉ ([97] : CString) := by decide
  exact (kstrndup_inside_iff h0 2 fun _ => 0xFF).mpr (Or.inr (by decide))

/-- The string "a" with the length that `alloc_dentry` passes. -/
theorem kstrndup_leaves_source :
    kstrndup (some [97, 0]) 255 (some fun _ => 0xFF) = .error .str :=
  rfl

/-! ## Tokens -/

/-- `strchr`: the rest of the string from the first `ch` on. The terminator is found as well. -/
def strchr : CString → UInt8 → Option CString
  | [], ch => if 0 = ch then some [] else none
  | c :: rest, ch => if c = ch then some (c :: rest) else strchr rest ch

/-- `while (*token && !strchr(delim, *token)) token++;` on the bytes from `token` to the end of the
buffer: how far `token` moves. -/
def scanToken (delim : CString) : List UInt8 → Except Object ℕ
  | [] => .error .str
  | c :: rest =>
    if c ≠ 0 ∧ strchr delim c = none then do
      let k ← scanToken delim rest
      return k + 1
    else .ok 0

/-- The part of `kstrtok_r` behind its tests, with `*saveptr` at `p`: the result, the buffer and
`*saveptr`. -/
def cut (buf : List UInt8) (delim : CString) (p : ℕ) :
    Except Object (Option ℕ × List UInt8 × Option ℕ) := do
  let k ← scanToken delim (buf.drop p)
  let c ← read .str buf (p + k)
  if c = 0 then .ok (some p, buf, some (p + k))
  else do
    let buf ← write .str buf (p + k) 0
    return (some p, buf, some (p + k + 1))

/-- `kstrtok_r`; `str` and `*saveptr` are positions in the buffer. -/
def kstrtokR (buf : List UInt8) (str : Option ℕ) (delim : CString) (saveptr : Option ℕ) :
    Except Object (Option ℕ × List UInt8 × Option ℕ) :=
  match str, saveptr with
  | some p, _ => cut buf delim p
  | none, none => .ok (none, buf, none)
  | none, some p => do
    let c ← read .str buf p
    if c = 0 then .ok (none, buf, some p) else cut buf delim p

/-- A call that returned a token, with the buffer and `*saveptr` behind it. -/
structure Call where
  result : ℕ
  buf : List UInt8
  saveptr : Option ℕ

/-- The string at an index of a buffer. -/
def stringAt (buf : List UInt8) (p : ℕ) : CString := (buf.drop p).takeWhile (· ≠ 0)

/-- The token, read when the call returns. -/
def Call.token (c : Call) : CString := stringAt c.buf c.result

/-- A call with `str`, and calls with `NULL` until one returns `NULL`; `none` when `fuel` calls were
not enough. -/
def kstrtokCalls (delim : CString) :
    ℕ → List UInt8 → Option ℕ → Option ℕ → Except Object (Option (List Call))
  | 0, _, _, _ => .ok none
  | fuel + 1, buf, str, saveptr => do
    let (result, buf, saveptr) ← kstrtokR buf str delim saveptr
    match result with
    | none => .ok (some [])
    | some p => do
      let rest ← kstrtokCalls delim fuel buf none saveptr
      return rest.map (⟨p, buf, saveptr⟩ :: ·)

/-- The fields between delimiters, without the empty one behind a delimiter at the end. -/
def fields (delim : CString) (s : CString) : List CString :=
  let all := s.splitOnP (· ∈ delim)
  if (s.getLast?.any (· ∈ delim)) then all.dropLast else all

variable {delim : CString}

/-- When `strchr` finds nothing. -/
lemma strchr_eq_none_iff {ch : UInt8} (h : ch ≠ 0) : strchr delim ch = none ↔ ch ∉ delim := by
  induction delim with
  | nil => simp [strchr, h.symm]
  | cons c delim ih =>
    unfold strchr
    by_cases hc : c = ch
    · rw [if_pos hc, hc]
      simp
    · rw [if_neg hc, ih, mem_cons, not_or]
      exact ⟨fun hout => ⟨fun heq => hc heq.symm, hout⟩, fun hout => hout.2⟩

variable {tok s : CString} {d : UInt8} {str saveptr : Option ℕ}

/-- The scan stops at a terminator or a delimiter, and nowhere before. -/
lemma scanToken_append (h0 : 0 ∉ tok) (htok : ∀ c ∈ tok, c ∉ delim) (hd : d = 0 ∨ d ∈ delim)
    (rest : List UInt8) :
    scanToken delim (tok ++ d :: rest) = .ok tok.length := by
  induction tok with
  | nil =>
    have hstop : ¬(d ≠ 0 ∧ strchr delim d = none) := by
      rintro ⟨hne, hnone⟩
      exact (strchr_eq_none_iff hne).mp hnone (hd.resolve_left hne)
    rw [nil_append, scanToken, if_neg hstop]
    rfl
  | cons c tok ih =>
    have hne : c ≠ 0 := fun heq => h0 (heq ▸ mem_cons_self)
    have hgo : c ≠ 0 ∧ strchr delim c = none :=
      ⟨hne, (strchr_eq_none_iff hne).mpr (htok c mem_cons_self)⟩
    rw [cons_append, scanToken, if_pos hgo,
      ih (fun hmem => h0 (mem_cons_of_mem _ hmem)) fun x hx =>
        htok x (mem_cons_of_mem _ hx)]
    rfl

/-- A string splits at its first delimiter, if it has one. -/
lemma exists_first_delim (delim s : CString) : (∀ c ∈ s, c ∉ delim) ∨
    ∃ tok d rest, s = tok ++ d :: rest ∧ (∀ c ∈ tok, c ∉ delim) ∧ d ∈ delim := by
  induction s with
  | nil => exact Or.inl (by simp)
  | cons c s ih =>
    by_cases hc : c ∈ delim
    · exact Or.inr ⟨[], c, s, rfl, by simp, hc⟩
    · rcases ih with hnone | ⟨tok, d, rest, hs, htok, hd⟩
      · exact Or.inl (forall_mem_cons.mpr ⟨hc, hnone⟩)
      · exact Or.inr ⟨c :: tok, d, rest, by rw [hs]; rfl, forall_mem_cons.mpr ⟨hc, htok⟩, hd⟩

/-! ### The fields -/

/-- Without a delimiter: one field. -/
lemma fields_of_none (hs : ∀ c ∈ s, c ∉ delim) : fields delim s = [s] := by
  have hsplit : s.splitOnP (· ∈ delim) = [s] :=
    splitOnP_eq_singleton fun c hc => decide_eq_false (hs c hc)
  have hlast : ¬(s.getLast?.any (· ∈ delim)) = true := by
    cases hl : s.getLast? with
    | none => simp
    | some c => simpa using hs c (mem_of_getLast? hl)
  unfold fields
  rw [hsplit]
  exact if_neg hlast

/-- The first field and the rest. -/
lemma fields_append (htok : ∀ c ∈ tok, c ∉ delim) (hd : d ∈ delim) (rest : CString) :
    fields delim (tok ++ d :: rest) =
      tok :: if rest = [] then [] else fields delim rest := by
  have hsplit : (tok ++ d :: rest).splitOnP (· ∈ delim) = tok :: rest.splitOnP (· ∈ delim) :=
    splitOnP_append_cons_of_forall_mem (fun c hc => decide_eq_false (htok c hc)) d
      (decide_eq_true hd) rest
  unfold fields
  simp only [hsplit]
  by_cases hrest : rest = []
  · rw [hrest, if_pos rfl, if_pos (by simpa using hd)]
    simp
  · have hlast : (tok ++ d :: rest).getLast? = rest.getLast? := by
      rw [List.getLast?_append_of_ne_nil _ (cons_ne_nil d rest),
        List.getLast?_cons_of_ne_nil hrest]
    rw [hlast, if_neg hrest]
    split_ifs
    · rw [dropLast_cons_of_ne_nil (splitOnP_ne_nil _ _)]
    · rfl

/-! ### One call -/

/-- The string behind a front. -/
lemma stringAt_append (pre : List UInt8) (h0 : 0 ∉ s) (rest : List UInt8) :
    stringAt (pre ++ (s ++ 0 :: rest)) pre.length = s := by
  unfold stringAt
  rw [drop_left, takeWhile_append_of_pos]
  · simp
  · intro c hc
    exact decide_eq_true (ne_of_mem_of_not_mem hc h0)

/-- The last token: nothing is written. -/
lemma cut_last (pre : List UInt8) (h0 : 0 ∉ s) (hs : ∀ c ∈ s, c ∉ delim) (more : List UInt8) :
    cut (pre ++ (s ++ 0 :: more)) delim pre.length =
      .ok (some pre.length, pre ++ (s ++ 0 :: more), some (pre.length + s.length)) := by
  have hread : read Object.str (pre ++ (s ++ 0 :: more)) (pre.length + s.length) = .ok 0 := by
    rw [← append_assoc, ← length_append]
    exact read_append _ _ _
  unfold cut
  rw [drop_left, scanToken_append h0 hs (Or.inl rfl), ok_bind, hread, ok_bind, if_pos rfl]

/-- A token with a delimiter behind it, which becomes the terminator of the token. -/
lemma cut_delim (pre : List UInt8) (h0 : 0 ∉ tok) (htok : ∀ c ∈ tok, c ∉ delim) (hd : d ∈ delim)
    (hne : d ≠ 0) (rest : List UInt8) :
    cut (pre ++ (tok ++ d :: rest)) delim pre.length =
      .ok (some pre.length, pre ++ (tok ++ 0 :: rest), some (pre.length + tok.length + 1)) := by
  have hread : read Object.str (pre ++ (tok ++ d :: rest)) (pre.length + tok.length) = .ok d := by
    rw [← append_assoc, ← length_append]
    exact read_append _ _ _
  have hwrite : write Object.str (pre ++ (tok ++ d :: rest)) (pre.length + tok.length) 0 =
      .ok (pre ++ (tok ++ 0 :: rest)) := by
    rw [← append_assoc, ← append_assoc, ← length_append]
    exact write_append _ _ _ _
  unfold cut
  rw [drop_left, scanToken_append h0 htok (Or.inr hd), ok_bind, hread, ok_bind, if_neg hne,
    hwrite]
  rfl

/-- On the string behind `*saveptr` a call is the one of the function on lists. -/
lemma cut_string (pre : List UInt8) (h0 : 0 ∉ s) (more : List UInt8) :
    ∃ buf k, cut (pre ++ (s ++ 0 :: more)) delim pre.length =
        .ok (some pre.length, buf, some (pre.length + k)) ∧
      stringAt buf pre.length = (nextToken delim s).1 ∧
      stringAt buf (pre.length + k) = (nextToken delim s).2 := by
  rcases exists_first_delim delim s with hs | ⟨tok, d, rest, rfl, htok, hd⟩
  · have hall : ∀ c ∈ s, decide (c ∉ delim) = true := fun c hc => decide_eq_true (hs c hc)
    have hnext : nextToken delim s = (s, []) := by
      unfold nextToken
      simp only [takeWhile_eq_self_iff.mpr hall, dropWhile_eq_nil_iff.mpr hall]
    refine ⟨_, s.length, cut_last pre h0 hs more, ?_, ?_⟩
    · rw [hnext]
      exact stringAt_append pre h0 more
    · rw [hnext, ← append_assoc, ← length_append]
      exact stringAt_append _ (s := []) not_mem_nil more
  · have hne : d ≠ 0 := fun heq => h0 (heq ▸ mem_append_right _ mem_cons_self)
    have htok0 : 0 ∉ tok := fun hmem => h0 (mem_append_left _ hmem)
    have hrest0 : 0 ∉ rest := fun hmem =>
      h0 (mem_append_right _ (mem_cons_of_mem _ hmem))
    have hall : ∀ c ∈ tok, decide (c ∉ delim) = true := fun c hc => decide_eq_true (htok c hc)
    have hnext : nextToken delim (tok ++ d :: rest) = (tok, rest) := by
      unfold nextToken
      rw [takeWhile_append_of_pos hall, dropWhile_append_of_pos hall,
        takeWhile_cons_of_neg (by simpa using hd),
        dropWhile_cons_of_neg (by simpa using hd), append_nil]
    rw [append_assoc, cons_append]
    refine ⟨_, tok.length + 1, cut_delim pre htok0 htok hd hne (rest ++ 0 :: more), ?_, ?_⟩
    · rw [hnext]
      exact stringAt_append pre htok0 _
    · have hpre : pre ++ (tok ++ 0 :: (rest ++ 0 :: more)) =
          pre ++ tok ++ [0] ++ (rest ++ 0 :: more) := by simp
      have hlength : pre.length + (tok.length + 1) = (pre ++ tok ++ [0]).length := by simp
      rw [hnext, hpre, hlength]
      exact stringAt_append _ hrest0 more

/-! ### All calls -/

/-- The calls that return the tokens of a string which ends at `stop`. -/
structure Splits (delim : CString) (s : CString) (stop : ℕ) (cs : List Call) : Prop where
  tokens : cs.map Call.token = fields delim s
  count : cs.length ≤ s.length + 1
  saveptr : ∀ i c, cs[i]? = some c → (c.saveptr = some stop ↔ i + 1 = cs.length)

/-- A call with `*saveptr` at the terminator returns `NULL`. -/
lemma kstrtokR_null (delim : CString) (pre more : List UInt8) :
    kstrtokR (pre ++ 0 :: more) none delim (some pre.length) =
      .ok (none, pre ++ 0 :: more, some pre.length) := by
  unfold kstrtokR
  simp only [read_append, ok_bind, if_true]

/-- A call that goes on. -/
lemma kstrtokR_rest (delim : CString) (pre : List UInt8) {c : UInt8} (hc : c ≠ 0)
    (more : List UInt8) : kstrtokR (pre ++ c :: more) none delim (some pre.length) =
      cut (pre ++ c :: more) delim pre.length := by
  unfold kstrtokR
  simp only [read_append, ok_bind, if_neg hc]

/-- A call and those after it. -/
lemma kstrtokCalls_next {buf buf' : List UInt8} {saveptr' : Option ℕ} {p fuel : ℕ} {cs : List Call}
    (hcall : kstrtokR buf str delim saveptr = .ok (some p, buf', saveptr'))
    (hrest : kstrtokCalls delim fuel buf' none saveptr' = .ok (some cs)) :
    kstrtokCalls delim (fuel + 1) buf str saveptr = .ok (some (⟨p, buf', saveptr'⟩ :: cs)) := by
  rw [kstrtokCalls, hcall, ok_bind]
  simp only [hrest]
  rfl

/-- A call that returns the last token, and the one behind it. -/
lemma kstrtokCalls_last {buf buf' pre more : List UInt8} {p : ℕ}
    (hcall : kstrtokR buf str delim saveptr = .ok (some p, buf', some pre.length))
    (hbuf : buf' = pre ++ 0 :: more) (fuel : ℕ) :
    kstrtokCalls delim (fuel + 2) buf str saveptr = .ok (some [⟨p, buf', some pre.length⟩]) := by
  apply kstrtokCalls_next hcall
  rw [kstrtokCalls, hbuf, kstrtokR_null]
  rfl

lemma Splits.single {stop : ℕ} {c : Call} (htoken : fields delim s = [c.token])
    (hsave : c.saveptr = some stop) : Splits delim s stop [c] := by
  refine ⟨by rw [htoken]; rfl, by simp, fun i c' hi => ?_⟩
  obtain ⟨rfl, rfl⟩ : i = 0 ∧ c' = c := by
    rw [List.getElem?_singleton] at hi
    split_ifs at hi with h
    exact ⟨h, (Option.some.inj hi).symm⟩
  exact iff_of_true hsave rfl

/-- One more call before, whose token is not the last. -/
lemma Splits.cons {rest : CString} {stop : ℕ} {c : Call} {cs : List Call}
    (h : Splits delim rest stop cs) (hfields : fields delim s = c.token :: fields delim rest)
    (hlen : rest.length < s.length) (hsave : c.saveptr ≠ some stop) (hcs : cs ≠ []) :
    Splits delim s stop (c :: cs) := by
  refine ⟨by rw [hfields, ← h.tokens]; rfl, ?_, fun i c' hi => ?_⟩
  · have := h.count
    rw [length_cons]
    omega
  · cases i with
    | zero =>
      rw [List.getElem?_cons_zero, Option.some.injEq] at hi
      have hpos := length_pos_of_ne_nil hcs
      rw [← hi, length_cons]
      exact iff_of_false hsave (by omega)
    | succ i =>
      rw [List.getElem?_cons_succ] at hi
      rw [h.saveptr i c' hi, length_cons]
      omega

lemma fields_ne_nil (hs : s ≠ []) : fields delim s ≠ [] := by
  rcases exists_first_delim delim s with hnone | ⟨tok, d, rest, rfl, htok, hd⟩
  · rw [fields_of_none hnone]
    exact cons_ne_nil _ _
  · rw [fields_append htok hd]
    exact cons_ne_nil _ _

/-- From a call that finds the string `s` at `pre.length`. The induction is on the length of the
string: what is left behind a delimiter is shorter. -/
lemma kstrtokCalls_splits (pre : List UInt8) {fuel : ℕ} (more : List UInt8) (h0 : 0 ∉ s)
    (hfuel : s.length + 2 ≤ fuel) (hcall : kstrtokR (pre ++ (s ++ 0 :: more)) str delim saveptr =
      cut (pre ++ (s ++ 0 :: more)) delim pre.length) :
    ∃ cs, kstrtokCalls delim fuel (pre ++ (s ++ 0 :: more)) str saveptr = .ok (some cs) ∧
      Splits delim s (pre.length + s.length) cs := by
  induction hlen : s.length using Nat.strong_induction_on
    generalizing s pre str saveptr fuel with
  | _ n ih =>
  rw [← hlen]
  obtain ⟨fuel, rfl⟩ : ∃ k, fuel = k + 2 := ⟨fuel - 2, by omega⟩
  rcases exists_first_delim delim s with hs | ⟨tok, d, rest, rfl, htok, hd⟩
  · rw [cut_last pre h0 hs more, ← length_append] at hcall
    refine ⟨_, kstrtokCalls_last hcall (append_assoc _ _ _).symm fuel, Splits.single ?_ ?_⟩
    · rw [fields_of_none hs]
      exact congrArg (fun t => [t]) (stringAt_append pre h0 more).symm
    · rw [length_append]
  · have hne : d ≠ 0 := fun heq => h0 (heq ▸ mem_append_right _ mem_cons_self)
    have htok0 : 0 ∉ tok := fun hmem => h0 (mem_append_left _ hmem)
    have hrest0 : 0 ∉ rest := fun hmem =>
      h0 (mem_append_right _ (mem_cons_of_mem _ hmem))
    have hbuf : pre ++ (tok ++ 0 :: (rest ++ 0 :: more)) =
        pre ++ tok ++ [0] ++ (rest ++ 0 :: more) := by simp
    have hpre : pre.length + tok.length + 1 = (pre ++ tok ++ [0]).length := by
      rw [length_append, length_append]
      rfl
    have htoken : ∀ p, p = pre.length →
        stringAt (pre ++ (tok ++ 0 :: (rest ++ 0 :: more))) p = tok := by
      intro p hp
      rw [hp]
      exact stringAt_append pre htok0 _
    have hstop : pre.length + (tok ++ d :: rest).length =
        (pre ++ tok ++ [0]).length + rest.length := by
      simp only [length_append, length_cons, length_nil]
      omega
    rw [append_assoc, cons_append, cut_delim pre htok0 htok hd hne, hpre] at hcall
    rw [append_assoc, cons_append]
    by_cases hrest : rest = []
    · -- the delimiter was the last byte
      rw [hrest] at hcall hbuf htoken hstop ⊢
      refine ⟨_, kstrtokCalls_last hcall hbuf fuel, Splits.single ?_ ?_⟩
      · rw [fields_append htok hd, if_pos rfl]
        exact congrArg (fun t => [t]) (htoken _ rfl).symm
      · rw [hstop]
        rfl
    · have hnext : kstrtokR (pre ++ tok ++ [0] ++ (rest ++ 0 :: more)) none delim
          (some (pre ++ tok ++ [0]).length) =
          cut (pre ++ tok ++ [0] ++ (rest ++ 0 :: more)) delim (pre ++ tok ++ [0]).length := by
        obtain ⟨c, rest, rfl⟩ := exists_cons_of_ne_nil hrest
        exact kstrtokR_rest delim _ (fun heq => hrest0 (heq ▸ mem_cons_self)) _
      have hshort : rest.length < (tok ++ d :: rest).length := by
        rw [length_append, length_cons]
        omega
      have hfuel' : rest.length + 2 ≤ fuel + 1 := by omega
      obtain ⟨cs, hcs, hsplits⟩ := ih rest.length (hlen ▸ hshort) _ hrest0 hfuel' hnext rfl
      rw [← hbuf] at hcs
      refine ⟨_, kstrtokCalls_next hcall hcs, ?_⟩
      rw [hstop]
      refine hsplits.cons ?_ hshort ?_ ?_
      · rw [fields_append htok hd, if_neg hrest]
        exact congrArg (· :: fields delim rest) (htoken _ rfl).symm
      · have hpos := length_pos_of_ne_nil hrest
        intro heq
        have := Option.some.inj heq
        omega
      · intro hnil
        have htokens := hsplits.tokens
        rw [hnil] at htokens
        exact fields_ne_nil hrest htokens.symm

/-- The first call and the following ones return the fields of the string, there are at most as many
as the string has bytes and one more, and `*saveptr` is at the terminator exactly behind the last. -/
theorem kstrtokR_fields {s : CString} (h0 : 0 ∉ s) (delim : CString) (more : List UInt8)
    (saveptr : Option ℕ) :
    ∃ cs, kstrtokCalls delim (s.length + 2) (s ++ 0 :: more) (some 0) saveptr = .ok (some cs) ∧
      cs.map Call.token = fields delim s ∧ cs.length ≤ s.length + 1 ∧
      ∀ i c, cs[i]? = some c → (c.saveptr = some s.length ↔ i + 1 = cs.length) := by
  have hcall : kstrtokR ([] ++ (s ++ 0 :: more)) (some 0) delim saveptr =
      cut ([] ++ (s ++ 0 :: more)) delim 0 := rfl
  obtain ⟨cs, hcs, hsplits⟩ := kstrtokCalls_splits [] more h0 le_rfl hcall
  have hstop : ([] : List UInt8).length + s.length = s.length := Nat.zero_add _
  rw [hstop] at hsplits
  exact ⟨cs, hcs, hsplits.tokens, hsplits.count, hsplits.saveptr⟩

/-- The string "/a//" at the delimiter "/". -/
theorem kstrtokR_fields_slashes :
    ∃ cs, kstrtokCalls [47] 6 [47, 97, 47, 47, 0] (some 0) none = .ok (some cs) ∧
      cs.map Call.token = [[], [97], []] ∧ cs.length ≤ 5 ∧
      ∀ i c, cs[i]? = some c → (c.saveptr = some 4 ↔ i + 1 = cs.length) :=
  kstrtokR_fields (s := [47, 97, 47, 47]) (by decide) [47] [] none

end LunOS.Klib.InPlace

import Mathlib.Data.List.TakeWhile

/-!
# Strings

The functions of `string.c` on strings. A C string is the list of its bytes without the terminator;
`strcmp` returns 0 exactly for equal lists. A pointer into a string is the rest of the string from
there on, and a `NULL` pointer is `none`.
-/

namespace LunOS.Klib

abbrev CString := List UInt8

/-- The objects whose bounds are checked where a function works on memory: a string argument or a
local array, and the format and the buffer of `kvsprintf`. -/
inductive Object
  | str
  | format
  | buf
deriving DecidableEq

/-- `kstrndup` when `kmalloc` succeeds. The loop tests the first byte of `str` in every turn, so it
copies `n` bytes of a string that is not empty; up to the first terminator that is the same. -/
def kstrndup (str : CString) (n : ℕ) : CString := str.take n

/-- One call of `kstrtok_r` from the byte `*saveptr` on: the token, and where `*saveptr` is left. -/
def nextToken (delim : List UInt8) (str : CString) : CString × CString :=
  let token := str.takeWhile fun c => c ∉ delim
  match str.dropWhile fun c => c ∉ delim with
  | [] => (token, [])
  | _ :: rest => (token, rest)

/-- `kstrtok_r(str, delim, &saveptr)`: the token, or `none` for `NULL`, and `saveptr`. -/
def kstrtokR (str : Option CString) (delim : List UInt8) (saveptr : Option CString) :
    Option CString × Option CString :=
  match str, saveptr with
  | none, none => (none, none)
  | none, some [] => (none, some [])
  | none, some rest =>
    let (token, rest) := nextToken delim rest
    (some token, some rest)
  | some str, _ =>
    let (token, rest) := nextToken delim str
    (some token, some rest)

example : kstrtokR (some [97, 47, 98]) [47] none = (some [97], some [98]) := by decide

end LunOS.Klib

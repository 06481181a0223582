import LunOS.Console.Drawing
import LunOS.Console.Layout
import LunOS.Console.Rendering
import LunOS.Utils.Serial

/-!
# Logging from several CPUs

`kprintf`, `KSUCCESS`, `KWARN` and `KERROR` of `klogging.c`. A call formats its text into a buffer of
its own, and then writes it to the terminal in one section under `kprint_lock`, one character after
the other.

- `LogCall.ops`, `LogCall.text`: what a call does to the terminal, and what it prints.
- `terminalRun_shows`: a run of such operations shows their text.
- `logging_lines_whole`: whatever the interleaving, the screen shows whole lines, in the order in
  which the lock was taken, and every CPU's in the order of its calls.
-/

namespace LunOS.Console
open LunOS.Loops LunOS.Klib LunOS.Threads LunOS.Serial List

/-- The functions of `klogging.c`. -/
inductive LogKind
  | kprintf
  | ksuccess
  | kwarn
  | kerror

/-- The colour and the text of the tag. -/
def LogKind.tag : LogKind → Option (BitVec 32 × List UInt8)
  | kprintf => none
  | ksuccess => some (0x00FF00, [79, 75])
  | kwarn => some (0xFFFF00, [87, 65, 82, 78, 73, 78, 71])
  | kerror => some (0xFF0000, [69, 82, 82, 79, 82])

/-- `"Error: Buffer overflow - data exceeds the allowed buffer size of 1024 chars."` -/
def overflowMessage : List UInt8 :=
  [69, 114, 114, 111, 114, 58, 32, 66, 117, 102, 102, 101, 114, 32, 111, 118, 101, 114, 102, 108,
    111, 119, 32, 45, 32, 100, 97, 116, 97, 32, 101, 120, 99, 101, 101, 100, 115, 32, 116, 104, 101,
    32, 97, 108, 108, 111, 119, 101, 100, 32, 98, 117, 102, 102, 101, 114, 32, 115, 105, 122, 101,
    32, 111, 102, 32, 49, 48, 50, 52, 32, 99, 104, 97, 114, 115, 46]

/-- A call whose format `kvsprintf` can interpret, with its result in `outLen` and `buf`. -/
structure LogCall where
  kind : LogKind
  env : Env
  format : List UInt8
  args : ℕ → BitVec 64
  stack : List UInt8
  outLen : ℤ
  buf : List UInt8
  room : stack.length = kprintfBufSize
  formats : kvsprintf env format args stack = .ok (outLen, buf)

/-- The turns of the loop of `terminal_write`. -/
def writeOps (data : List UInt8) : List Op := data.map fun b => .write [b]

/-- `[`, the text in its colour, and `] ` -/
def tagOps : Option (BitVec 32 × List UInt8) → List Op
  | none => []
  | some (fg, word) => writeOps [91] ++ [.setcolor fg 0x000035] ++ writeOps word ++
      [.setcolor 0xFFFFFF 0x000035] ++ writeOps [93, 32]

/-- The text of a tag. -/
def tagText : Option (BitVec 32 × List UInt8) → List UInt8
  | none => []
  | some (_, word) => [91] ++ word ++ [93, 32]

/-- The section under `kprint_lock`. -/
def LogCall.ops (call : LogCall) : List Op :=
  if call.outLen < 0 then writeOps overflowMessage
  else tagOps call.kind.tag ++ writeOps (call.buf.take call.outLen.toNat)

/-- What a call writes. -/
def LogCall.text (call : LogCall) : List UInt8 :=
  if call.outLen < 0 then overflowMessage
  else tagText call.kind.tag ++ call.buf.take call.outLen.toNat

/-- The same section, step by step. -/
def LogCall.steps (call : LogCall) : List (Terminal → Terminal) :=
  call.ops.map fun op t => op.run t

/-! ## What a call prints -/

/-- Operations that write or choose a colour. -/
def Writing (ops : List Op) : Prop := ∀ op ∈ ops, (∃ data, op = .write data) ∨
  ∃ fg bg, op = .setcolor fg bg

lemma writing_writeOps (data : List UInt8) : Writing (writeOps data) := by
  intro op hop
  obtain ⟨b, -, rfl⟩ := mem_map.1 hop
  exact .inl ⟨[b], rfl⟩

lemma Writing.append {ops ops' : List Op} (h : Writing ops) (h' : Writing ops') :
    Writing (ops ++ ops') := by
  intro op hop
  rcases mem_append.1 hop with hop | hop
  · exact h op hop
  · exact h' op hop

lemma writing_setcolor (fg bg : BitVec 32) : Writing [.setcolor fg bg] := by
  intro op hop
  exact .inr ⟨fg, bg, mem_singleton.1 hop⟩

/-- A call only writes. -/
lemma LogCall.writing (call : LogCall) : Writing call.ops := by
  have htag : Writing (tagOps call.kind.tag) := by
    unfold tagOps
    split
    · exact forall_mem_nil _
    · exact ((((writing_writeOps _).append (writing_setcolor _ _)).append
        (writing_writeOps _)).append (writing_setcolor _ _)).append (writing_writeOps _)
  unfold LogCall.ops
  split_ifs with hlen
  · exact writing_writeOps _
  · exact htag.append (writing_writeOps _)

lemma writeOps_text (data : List UInt8) : (writeOps data).flatMap Op.text = data := by
  induction data with
  | nil => rfl
  | cons b data ih => exact congrArg (b :: ·) ih

/-- The text of a call. -/
lemma LogCall.ops_text (call : LogCall) : call.ops.flatMap Op.text = call.text := by
  have htag : (tagOps call.kind.tag).flatMap Op.text = tagText call.kind.tag := by
    cases call.kind.tag with
    | none => rfl
    | some tag => simp [tagOps, tagText, writeOps_text, Op.text]
  unfold LogCall.ops LogCall.text
  split_ifs with hlen
  · exact writeOps_text _
  · rw [flatMap_append, htag, writeOps_text]

/-- A run of such operations shows their text. -/
lemma terminalRun_shows {t : Terminal} {p : Page} (hu : Usable t) (h : Shows p t) {ops : List Op}
    (hops : Writing ops) : (terminalRun t ops).frame = t.frame ∧
      Shows ((ops.flatMap Op.text).foldl (Page.put t.totalColumns) p) (terminalRun t ops) := by
  induction ops generalizing t p with
  | nil => exact ⟨rfl, h⟩
  | cons op ops ih =>
    have hrest : Writing ops := fun op' hop' => hops op' (mem_cons_of_mem _ hop')
    have hstep : (op.run t).frame = t.frame ∧
        Shows (op.text.foldl (Page.put t.totalColumns) p) (op.run t) := by
      rcases hops op mem_cons_self with ⟨data, rfl⟩ | ⟨fg, bg, rfl⟩
      · exact ⟨terminalWrite_frame t data, terminalWrite_shows hu h data⟩
      · exact ⟨rfl, ⟨⟨h.row, h.cells⟩, h.column, h.inside⟩⟩
    obtain ⟨hframe, hshows⟩ := ih (hu.of_frame hstep.1) hstep.2 hrest
    rw [columns_of_frame hstep.1] at hshows
    rw [flatMap_cons, foldl_append]
    exact ⟨hframe.trans hstep.1, hshows⟩

/-! ## The colours -/

/-- The colours of the next character. -/
def Terminal.pen (t : Terminal) : BitVec 32 × BitVec 32 := (t.terminalFgColor, t.terminalBgColor)

lemma pen_of_tty {t t' : Terminal} (h : t'.toTty = t.toTty) : t'.pen = t.pen :=
  congrArg (fun s : Tty => (s.terminalFgColor, s.terminalBgColor)) h

lemma moveTo_pen (t : Terminal) (row column : ℕ) : (t.moveTo row column).pen = t.pen := rfl

lemma terminalScroll_pen (t : Terminal) : (terminalScroll t).pen = t.pen := by
  have hclear : (clearLastRow (moveLines t)).pen = (moveLines t).pen :=
    loop_field (f := Terminal.pen) clearLast (fun _ _ => rfl) _ _
  have hmove : (moveLines t).pen = t.pen := by
    unfold moveLines moveCells
    rfl
  unfold terminalScroll
  rw [moveTo_pen, hclear, hmove]

lemma terminalNewline_pen (t : Terminal) : (terminalNewline t).pen = t.pen := by
  unfold terminalNewline
  dsimp only
  split_ifs
  · exact (pen_of_tty (terminalRender_tty _)).trans (terminalScroll_pen _)
  · rfl

lemma wrap_pen (t : Terminal) : (wrap t).pen = t.pen := by
  unfold wrap
  split_ifs
  · exact terminalNewline_pen t
  · rfl

/-- Writing keeps the colours. -/
lemma terminalPutchar_pen (t : Terminal) (c : TermCell) : (terminalPutchar t c).pen = t.pen := by
  have hput : (terminalPutentryat t c t.currentColumn t.currentRow).pen = t.pen := by
    unfold terminalPutentryat
    split_ifs <;> rfl
  unfold terminalPutchar
  split_ifs
  · exact terminalNewline_pen t
  · exact wrap_pen _
  · exact (wrap_pen _).trans hput

lemma writeOps_pen (t : Terminal) (data : List UInt8) :
    (terminalRun t (writeOps data)).pen = t.pen := by
  induction data generalizing t with
  | nil => rfl
  | cons b data ih => exact (ih _).trans (terminalPutchar_pen t _)

/-- The colours of `_start`: white on dark blue. -/
def defaultPen : BitVec 32 × BitVec 32 := (0xFFFFFF, 0x000035)

/-- A call that starts with the default colours leaves them behind. -/
lemma LogCall.ops_pen (call : LogCall) {t : Terminal} (h : t.pen = defaultPen) :
    (terminalRun t call.ops).pen = defaultPen := by
  have htag : (terminalRun t (tagOps call.kind.tag)).pen = defaultPen := by
    unfold tagOps
    split
    · exact h
    · unfold terminalRun
      rw [foldl_append]
      refine (writeOps_pen _ _).trans ?_
      rw [foldl_append]
      rfl
  unfold LogCall.ops
  split_ifs with hlen
  · exact (writeOps_pen _ _).trans h
  · unfold terminalRun at htag ⊢
    rw [foldl_append]
    exact (writeOps_pen _ _).trans htag

lemma terminalInitialize_pen (t : Terminal) (fg bg : BitVec 32) :
    (terminalInitialize t fg bg).pen = (fg, bg) :=
  (pen_of_tty (terminalRender_tty _)).trans
    (loop_field (f := Terminal.pen) (fun i t => writeCell t i ⟨32, fg, bg⟩) (fun _ _ => rfl) _ _)

/-! ## Interleavings -/

lemma runBody_steps (ops : List Op) (t : Terminal) :
    runBody (ops.map fun op t => op.run t) t = terminalRun t ops := foldl_map

/-- Calls one after the other are a run of the terminal. -/
lemma replay_steps (calls : List LogCall) (t : Terminal) :
    replay LogCall.steps calls t = terminalRun t (calls.flatMap LogCall.ops) := by
  induction calls generalizing t with
  | nil => rfl
  | cons call calls ih =>
    unfold terminalRun at ih ⊢
    rw [flatMap_cons, foldl_append, ← ih]
    exact congrArg (replay LogCall.steps calls) (runBody_steps call.ops t)

/-- Every call restores the colours. -/
lemma replay_pen (calls : List LogCall) {t : Terminal} (h : t.pen = defaultPen) :
    (terminalRun t (calls.flatMap LogCall.ops)).pen = defaultPen := by
  induction calls generalizing t with
  | nil => exact h
  | cons call calls ih =>
    unfold terminalRun at ih ⊢
    rw [flatMap_cons, foldl_append]
    exact ih (call.ops_pen h)

/-- Any number of CPUs log after `terminal_initialize`. While no call writes, the screen shows the
last lines of the texts of all calls so far, one whole text behind the other; each CPU's calls are
in order; the pixels are drawn, and the colours are those of the beginning. -/
theorem logging_lines_whole {ι : Type*} [DecidableEq ι] {t : Terminal} (hfits : GridFits t.fb)
    (hrows : 1 ≤ screenRows t.fb) (hcolumns : 1 ≤ screenColumns t.fb) (script : ι → List LogCall)
    {s : State ι (Shared ι LogCall Terminal) (Own LogCall Terminal)}
    (h : Threads.Reachable (Move LogCall.steps)
      (init script (terminalInitialize t 0xFFFFFF 0x000035)) s)
    (hfree : s.shared.locked = false) :
    ∃ order : List (ι × LogCall), (∀ i, sectionsOf i order ++ (s.own i).todo = script i) ∧
      (∀ r < screenRows t.fb, ∀ c < screenColumns t.fb,
        (s.shared.data.terminalBuffer (r * screenColumns t.fb + c)).ch =
          (layout (screenColumns t.fb) (order.flatMap fun e => e.2.text)).shown
            (screenRows t.fb) r c) ∧
      Drawn s.shared.data ∧ s.shared.data.pen = defaultPen := by
  obtain ⟨hdata, horder⟩ := Reachable.serial h hfree
  refine ⟨s.shared.log, horder, ?_⟩
  rw [hdata, replay_steps]
  have hwriting : Writing ((s.shared.log.map Prod.snd).flatMap LogCall.ops) := by
    intro op hop
    obtain ⟨call, -, hop⟩ := mem_flatMap.1 hop
    exact call.writing op hop
  have htext : ((s.shared.log.map Prod.snd).flatMap LogCall.ops).flatMap Op.text =
      s.shared.log.flatMap fun e => e.2.text := by
    rw [flatMap_assoc, flatMap_map]
    simp only [LogCall.ops_text]
  have hnoscroll : Op.scroll ∉ (s.shared.log.map Prod.snd).flatMap LogCall.ops := by
    intro hmem
    rcases hwriting _ hmem with ⟨_, heq⟩ | ⟨_, _, heq⟩ <;> cases heq
  have honscreen := terminalRun_onScreen hfits
    (terminalInitialize_onScreen hfits rfl 0xFFFFFF 0x000035)
    ((s.shared.log.map Prod.snd).flatMap LogCall.ops)
  rw [redrawn_of_not_mem _ hnoscroll] at honscreen
  obtain ⟨hempty, hr, hc⟩ := Fresh.shows hrows hcolumns hfits.cells
    (Fresh.init (t := t) 0xFFFFFF 0x000035 rfl rfl)
  have hu : Usable (terminalInitialize t 0xFFFFFF 0x000035) := by
    refine ⟨?_, ?_, ?_⟩
    · rw [hr]
      exact hrows
    · rw [hc]
      exact hcolumns
    · rw [hr, hc]
      exact hfits.cells
  obtain ⟨hframe, hshows⟩ := terminalRun_shows hu hempty hwriting
  have hcells := hshows.cells
  rw [rows_of_frame hframe, columns_of_frame hframe, hr, hc, htext] at hcells
  exact ⟨hcells, honscreen.shown, replay_pen _ (terminalInitialize_pen t _ _)⟩

/-- `KSUCCESS("")` -/
def emptySuccess : LogCall where
  kind := .ksuccess
  env := ⟨fun _ => 0, fun _ _ => 0⟩
  format := [0]
  args _ := 0
  stack := List.replicate 1024 0
  outLen := 0
  buf := List.replicate 1024 0
  room := length_replicate
  formats := by
    unfold kvsprintf
    rw [formatLoop_end]
    rfl

/-- Two CPUs are about to log, and one of them has done so. -/
theorem logging_lines_whole_sample : ∃ s, Threads.Reachable (Move LogCall.steps)
    (init (fun _ : Fin 2 => [emptySuccess])
      (terminalInitialize (Terminal.boot smallScreen) 0xFFFFFF 0x000035)) s ∧
    (s.own 1).todo = [] ∧ Drawn s.shared.data ∧ s.shared.data.pen = defaultPen := by
  have hrun := section_runs LogCall.steps (i := 1) (s := init (fun _ : Fin 2 =>
    [emptySuccess]) (terminalInitialize (Terminal.boot smallScreen) 0xFFFFFF 0x000035)) rfl rfl
  obtain ⟨_, -, -, hdrawn, hpen⟩ := logging_lines_whole (t := Terminal.boot smallScreen)
    gridFits_smallScreen (by decide) (by decide) _ hrun rfl
  exact ⟨_, hrun, rfl, hdrawn, hpen⟩

end LunOS.Console

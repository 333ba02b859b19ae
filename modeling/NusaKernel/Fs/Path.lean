import Mathlib.Data.List.TakeWhile
import NusaKernel.Lib.Ring

/-!
# Paths (`lib/fs/fs.c`)

`fs_normalize_path` works in place: it reads the string at `pos` and writes what it keeps at
`outpos`, which never overtakes `pos`. Its result is that of splitting the string at slashes, going
through the parts with a stack of components, and joining what is left (`normalize_path_reference`).
-/

namespace NusaKernel.Fs

open Function List Nat Ring

/-- The character `'/'`. -/
def slash : UInt8 := 0x2f

/-- The character `'.'`. -/
def period : UInt8 := 0x2e

/-! ## Normalization -/

/-- The states of `fs_normalize_path`. -/
inductive PathState where
  | initial | fieldStart | inField | sep | seenSep | dot | seenDot | dotdot | seenDotdot
  deriving DecidableEq

/-- The variables of `fs_normalize_path`. -/
structure Normalizer where
  path : ℕ → UInt8
  pos : ℕ
  outpos : ℕ
  state : PathState
  done : Bool

variable (n : Normalizer)

/-- `path[outpos++] = c`. -/
def Normalizer.emit (c : UInt8) : Normalizer :=
  { n with path := update n.path n.outpos c, outpos := n.outpos + 1 }

/-- The loop that walks backwards from `outpos` to a field boundary. -/
def walkBack (path : ℕ → UInt8) : ℕ → ℕ
  | 0 => 0
  | outpos + 1 => if path outpos = slash then outpos + 1 else walkBack path outpos

/-- One round of the loop of `fs_normalize_path`. -/
def Normalizer.step : Normalizer :=
  let c := n.path n.pos
  match n.state with
  | .initial =>
    if c = slash then { n with state := .sep }
    else if c = period then { n with state := .dot }
    else { n with state := .fieldStart }
  | .fieldStart =>
    if c = period then { n with state := .dot }
    else if c = 0 then { n with done := true }
    else { n with state := .inField }
  | .inField =>
    if c = slash then { n with state := .sep }
    else if c = 0 then { n with done := true }
    else { n.emit c with pos := n.pos + 1 }
  | .sep => { n.emit slash with pos := n.pos + 1, state := .seenSep }
  | .seenSep =>
    if c = slash then { n with pos := n.pos + 1 }
    else if c = 0 then { n with done := true }
    else { n with state := .fieldStart }
  | .dot => { n with pos := n.pos + 1, state := .seenDot }
  | .seenDot =>
    if c = period then { n with state := .dotdot }
    else if c = slash then { n with pos := n.pos + 1, state := .seenSep }
    else if c = 0 then { n with done := true }
    else { n.emit period with state := .inField }
  | .dotdot => { n with pos := n.pos + 1, state := .seenDotdot }
  | .seenDotdot =>
    if c = slash ∨ c = 0 then
      { n with
        outpos := walkBack n.path (n.outpos - 1)
        pos := n.pos + 1
        state := .seenSep
        done := c = 0 }
    else { (n.emit period).emit period with state := .inField }

/-- The loop of `fs_normalize_path`, with a bound on its rounds. -/
def Normalizer.run : ℕ → Normalizer → Normalizer
  | 0, n => n
  | fuel + 1, n => if n.done then n else Normalizer.run fuel n.step

/-- What was kept so far. -/
def Normalizer.out : List UInt8 := block n.path 0 n.outpos

/-- The string, without a trailing slash. -/
def Normalizer.result : List UInt8 :=
  if n.out.getLast? = some slash then n.out.dropLast else n.out

/-- `fs_normalize_path` of a string. -/
def fsNormalizePath (path : List UInt8) : List UInt8 :=
  (Normalizer.run (4 * path.length + 4) ⟨fun i => path.getD i 0, 0, 0, .initial, false⟩).result

variable {cs ds : List (List UInt8)}

/-! ## Components -/

/-- A component of a path. -/
structure Component (c : List UInt8) : Prop where
  nonempty : c ≠ []
  slash : slash ∉ c
  zero : 0 ∉ c

/-- A component can be checked. -/
instance (c : List UInt8) : Decidable (Component c) :=
  decidable_of_iff (c ≠ [] ∧ Fs.slash ∉ c ∧ 0 ∉ c)
    ⟨fun h => ⟨h.1, h.2.1, h.2.2⟩, fun h => ⟨h.nonempty, h.slash, h.zero⟩⟩

/-- The path of a list of components. -/
def render : List (List UInt8) → List UInt8
  | [] => []
  | c :: comps => slash :: (c ++ render comps)

theorem render_append (cs ds : List (List UInt8)) : render (cs ++ ds) = render cs ++ render ds := by
  induction cs with
  | nil => rfl
  | cons c cs ih => simp [render, ih]

theorem zero_not_mem_render {comps : List (List UInt8)} (h : ∀ c ∈ comps, Component c) :
    0 ∉ render comps := by
  induction comps with
  | nil => exact not_mem_nil
  | cons c comps ih =>
    rw [forall_mem_cons] at h
    simp only [render, mem_cons, mem_append, not_or]
    exact ⟨by decide, h.1.zero, ih h.2⟩

/-- The string ends here, or a component begins. -/
def AtBoundary (rest : List UInt8) : Prop := rest = [] ∨ rest.head? = some slash

/-- The components are the parts between the slashes. -/
theorem splitOn_render {c : List UInt8} (hc : slash ∉ c) (hcs : ∀ d ∈ cs, slash ∉ d) :
    (c ++ render cs).splitOn slash = c :: cs := by
  induction cs generalizing c with
  | nil => rw [render, append_nil, splitOn_eq_singleton hc]
  | cons d cs ih =>
    rw [forall_mem_cons] at hcs
    rw [render, splitOn_append_cons_self_of_not_mem hc, ih hcs.1 hcs.2]

theorem render_inj (hcs : ∀ c ∈ cs, Component c) (hds : ∀ d ∈ ds, Component d)
    (heq : render cs = render ds) : cs = ds := by
  have hsplit := splitOn_render not_mem_nil fun c hc => (hcs c hc).slash
  rw [heq, splitOn_render not_mem_nil fun d hd => (hds d hd).slash] at hsplit
  exact (List.cons.inj hsplit).2.symm

/-- A path that goes on at a boundary behind the path of other components begins with them. -/
theorem exists_append_of_render {rest : List UInt8} (hcs : ∀ c ∈ cs, Component c)
    (hds : ∀ d ∈ ds, Component d) (hrest : AtBoundary rest)
    (heq : render ds = render cs ++ rest) : ∃ es, ds = cs ++ es ∧ rest = render es := by
  rcases hrest with rfl | hhead
  · rw [append_nil] at heq
    exact ⟨[], (render_inj hds hcs heq).trans (append_nil cs).symm, rfl⟩
  obtain ⟨tail, rfl⟩ := head?_eq_some_iff.mp hhead
  have hsplit := splitOn_render not_mem_nil fun d hd => (hds d hd).slash
  rw [heq, nil_append, splitOn_append_cons_self, ← nil_append (render cs),
    splitOn_render not_mem_nil fun c hc => (hcs c hc).slash] at hsplit
  obtain rfl : cs ++ tail.splitOn slash = ds := (List.cons.inj hsplit).2
  rw [render_append] at heq
  exact ⟨_, rfl, (append_cancel_left heq).symm⟩

variable {n : Normalizer}

/-! ## What it is for -/

/-- A component that is kept. -/
def Ordinary (c : List UInt8) : Prop := c ≠ [] ∧ c ≠ [period] ∧ c ≠ [period, period]

/-- Whether a path begins with a slash, and its components. -/
structure Parsed where
  absolute : Bool
  comps : List (List UInt8)

variable (p : Parsed)

/-- Go on with a part of a path. Empty parts and `.` are dropped, `..` removes the last component,
or the leading slash if there is none. -/
def Parsed.visit (c : List UInt8) : Parsed :=
  if c = [] ∨ c = [period] then p
  else if c = [period, period] then
    if p.comps = [] then ⟨false, []⟩ else { p with comps := p.comps.dropLast }
  else { p with comps := p.comps ++ [c] }

/-- The components, each behind a slash, but for the first one of a relative path. -/
def Parsed.join : List UInt8 :=
  if p.absolute then render p.comps else (render p.comps).tail

/-- Split a path at its slashes, and join what is left of its parts. -/
def referencePath (path : List UInt8) : List UInt8 :=
  ((path.splitOn slash).foldl Parsed.visit ⟨path.head? = some slash, []⟩).join

/-- The string in front of the next component. -/
def Parsed.opened : List UInt8 :=
  if p.absolute ∨ p.comps ≠ [] then p.join ++ [slash] else []

/-- All components are kept as they are. -/
def Parsed.Proper : Prop := ∀ c ∈ p.comps, Component c ∧ Ordinary c

section Reference

variable {p : Parsed} {c cur rest v : List UInt8}

theorem Ordinary.append (h : Ordinary cur) (x : UInt8) : Ordinary (cur ++ [x]) := by
  obtain ⟨hnil, hdot, -⟩ := h
  refine ⟨by simp, fun heq => hnil ?_, fun heq => hdot ?_⟩
  · exact (append_inj' heq rfl : cur = [] ∧ _).1
  · exact (append_inj' heq rfl : cur = [period] ∧ _).1

theorem visit_ordinary (p : Parsed) (h : Ordinary c) :
    p.visit c = ⟨p.absolute, p.comps ++ [c]⟩ := by
  rw [Parsed.visit, if_neg (not_or.mpr ⟨h.1, h.2.1⟩), if_neg h.2.2]

theorem join_push (p : Parsed) (c : List UInt8) :
    Parsed.join ⟨p.absolute, p.comps ++ [c]⟩ = p.opened ++ c := by
  obtain ⟨absolute, comps⟩ := p
  cases absolute <;> cases comps <;> simp [Parsed.join, Parsed.opened, render, render_append]

theorem Parsed.Proper.visit (h : p.Proper) (hslash : slash ∉ c) (hzero : 0 ∉ c) :
    (p.visit c).Proper := by
  unfold Parsed.visit
  split_ifs with hskip hback hnil
  · exact h
  · exact forall_mem_nil _
  · exact fun d hd => h d ((dropLast_sublist _).subset hd)
  · rw [not_or] at hskip
    exact forall_mem_append.mpr
      ⟨h, forall_mem_singleton.mpr ⟨⟨hskip.1, hslash, hzero⟩, hskip.1, hskip.2, hback⟩⟩

/-- A path does not end with a slash. -/
theorem Parsed.Proper.getLast_join (h : p.Proper) : p.join.getLast? ≠ some slash := by
  obtain ⟨absolute, comps⟩ := p
  induction comps using reverseRecOn with
  | nil => cases absolute <;> simp [Parsed.join, render]
  | append_singleton cs c _ =>
    have hc := (h c (mem_append_right _ mem_cons_self)).1
    rw [join_push ⟨absolute, cs⟩ c, getLast?_append_of_ne_nil _ hc.nonempty]
    exact fun hlast => hc.slash (mem_of_getLast? hlast)

/-- The path is there, or it is there with a slash behind it. -/
theorem Parsed.Proper.strip (h : p.Proper) (hout : n.out = p.join ∨ n.out = p.opened) :
    n.result = p.join := by
  unfold Normalizer.result
  rcases hout with hout | hout
  · rw [hout, if_neg h.getLast_join]
  rw [hout, Parsed.opened]
  split
  · rw [getLast?_concat, if_pos rfl, dropLast_concat]
  · next hempty =>
    rw [not_or, not_not] at hempty
    rw [if_neg (by simp), Parsed.join, hempty.2]
    simp [render]

/-- What is left to do: the parts that were not visited, of which the first was read up to
`cur`. -/
structure Pending (v : List UInt8) (p : Parsed) (cur rest : List UInt8) : Prop where
  proper : p.Proper
  value : (((cur ++ rest).splitOn slash).foldl Parsed.visit p).join = v
  slash : slash ∉ cur
  zero : 0 ∉ cur ++ rest

theorem Pending.read {x : UInt8} (h : Pending v p cur (x :: rest)) (hx : x ≠ Fs.slash) :
    Pending v p (cur ++ [x]) rest := by
  have hassoc : cur ++ [x] ++ rest = cur ++ x :: rest := by simp
  exact ⟨h.proper, hassoc ▸ h.value, by simp [h.slash, hx.symm], hassoc ▸ h.zero⟩

theorem Pending.visit {x : UInt8} (h : Pending v p cur (x :: rest)) (hx : x = Fs.slash) :
    Pending v (p.visit cur) [] rest := by
  subst hx
  have hzero := h.zero
  rw [mem_append, mem_cons, not_or, not_or] at hzero
  refine ⟨h.proper.visit h.slash hzero.1, ?_, not_mem_nil, hzero.2.2⟩
  rw [← h.value, splitOn_append_cons_self_of_not_mem h.slash]
  rfl

theorem Pending.finish (h : Pending v p cur []) (hout : n.out = (p.visit cur).join ∨
    n.out = (p.visit cur).opened) : n.result = v ∧ ∃ q : Parsed, q.Proper ∧ q.join = v := by
  have hvalue := h.value
  have hzero := h.zero
  rw [append_nil] at hvalue hzero
  rw [splitOn_eq_singleton h.slash] at hvalue
  have hproper := h.proper.visit h.slash hzero
  exact ⟨(hproper.strip hout).trans hvalue, _, hproper, hvalue⟩

end Reference

/-! ## The loop -/

/-- The rounds a state can be followed by before a character is consumed. -/
def PathState.rank : PathState → ℕ
  | .initial => 3
  | .fieldStart => 2
  | .inField => 1
  | .sep => 0
  | .seenSep => 3
  | .dot => 0
  | .seenDot => 2
  | .dotdot => 0
  | .seenDotdot => 2

/-- The characters that a state has consumed and may still write. -/
def PathState.slack : PathState → ℕ
  | .seenDot => 1
  | .dotdot => 1
  | .seenDotdot => 2
  | _ => 0

/-- What a state says of the string written so far, with the components that were visited, the part
of the next one that was read, and the next character. -/
def PathState.Means (out : List UInt8) (p : Parsed) (cur : List UInt8) (c : UInt8) :
    PathState → Prop
  | .initial => out = [] ∧ cur = [] ∧ p = ⟨c = slash, []⟩
  | .fieldStart => out = p.opened ∧ cur = [] ∧ c ≠ slash
  | .inField => out = p.opened ++ cur ∧
      (Ordinary cur ∨ c ≠ slash ∧ c ≠ 0 ∧ Ordinary (cur ++ [c]))
  | .sep => out ++ [slash] = (p.visit cur).opened ∧ c = slash
  | .seenSep => out = p.opened ∧ cur = []
  | .dot => out = p.opened ∧ cur = [] ∧ c = period
  | .seenDot => out = p.opened ∧ cur = [period]
  | .dotdot => out = p.opened ∧ cur = [period] ∧ c = period
  | .seenDotdot => out = p.opened ∧ cur = [period, period]

/-- The rest of the string is unread, and the loop goes on to the result `v`. -/
structure Normalizer.Goes (v : List UInt8) (len : ℕ) (n : Normalizer) (p : Parsed)
    (cur rest : List UInt8) : Prop where
  unread : ∀ i ≤ rest.length, n.path (n.pos + i) = rest.getD i 0
  pos : n.pos + rest.length = len
  behind : n.outpos + n.state.slack ≤ n.pos
  means : n.state.Means n.out p cur (n.path n.pos)
  pending : Pending v p cur rest
  going : n.done = false

section Loop

variable {p p' : Parsed} {c cur cur' rest v : List UInt8} {len : ℕ} {x : UInt8} {n' : Normalizer}
  {path : ℕ → UInt8}

theorem out_emit (n : Normalizer) (c : UInt8) : (n.emit c).out = n.out ++ [c] := by
  show block (update n.path n.outpos c) 0 (n.outpos + 1) = block n.path 0 n.outpos ++ [c]
  rw [block_add]
  congr 1
  · refine map_congr_left fun i hi => update_of_ne ?_ ..
    have hlt := mem_range.mp hi
    omega
  · simp [block]

theorem block_concat (h : block path 0 (c ++ [x]).length = c ++ [x]) :
    block path 0 c.length = c ∧ path c.length = x := by
  rw [length_append, length_singleton, block_add] at h
  obtain ⟨hfront, hlast⟩ := append_inj' h rfl
  exact ⟨hfront, by simpa [block] using hlast⟩

/-- The loop walks back over a component to the slash in front of it. -/
theorem walk_back_eq {front : List UInt8} (hc : slash ∉ c)
    (hfront : front = [] ∨ front.getLast? = some slash)
    (hpath : block path 0 (front ++ c).length = front ++ c) :
    walkBack path (front ++ c).length = front.length ∧ block path 0 front.length = front := by
  induction c using reverseRecOn with
  | nil =>
    rw [append_nil] at hpath ⊢
    refine ⟨?_, hpath⟩
    rcases hfront with rfl | hlast
    · rfl
    · obtain ⟨init, rfl⟩ := getLast?_eq_some_iff.mp hlast
      rw [length_append, length_singleton, walkBack, if_pos (block_concat hpath).2]
  | append_singleton c x ih =>
    rw [mem_append, mem_singleton, not_or] at hc
    rw [← append_assoc] at hpath ⊢
    obtain ⟨hinit, hx⟩ := block_concat hpath
    rw [length_append, length_singleton, walkBack, if_neg (hx ▸ Ne.symm hc.2)]
    exact ih hc.1 hinit

/-- What was written goes back to the last component, or to nothing. -/
theorem back_eq (hout : n.out = p.opened) (hproper : p.Proper) :
    block n.path 0 (walkBack n.path (n.outpos - 1)) = (p.visit [period, period]).opened := by
  have hlength : n.outpos = p.opened.length := by rw [← hout, Normalizer.out, length_block]
  obtain ⟨absolute, comps⟩ := p
  induction comps using reverseRecOn with
  | nil =>
    have hzero : n.outpos - 1 = 0 := by
      cases absolute <;> simp [hlength, Parsed.opened, Parsed.join, render]
    rw [hzero]
    rfl
  | append_singleton cs c _ =>
    have hopened : Parsed.opened ⟨absolute, cs ++ [c]⟩ =
        Parsed.opened ⟨absolute, cs⟩ ++ c ++ [slash] := by
      rw [← join_push ⟨absolute, cs⟩ c]
      exact if_pos (.inr (by simp))
    rw [Normalizer.out, hlength, hopened] at hout
    have hc := (hproper c (mem_append_right _ mem_cons_self)).1.slash
    have hfront : Parsed.opened ⟨absolute, cs⟩ = [] ∨
        (Parsed.opened ⟨absolute, cs⟩).getLast? = some slash := by
      unfold Parsed.opened
      split
      · exact .inr getLast?_concat
      · exact .inl rfl
    obtain ⟨hwalk, hblock⟩ := walk_back_eq hc hfront (block_concat hout).1
    have hvisit : Parsed.visit ⟨absolute, cs ++ [c]⟩ [period, period] = ⟨absolute, cs⟩ := by
      simp [Parsed.visit]
    rw [hlength, hopened, length_append, length_singleton, Nat.add_sub_cancel, hwalk,
      hblock, hvisit]

/-- Some characters are eaten, and what was unread is not overwritten. -/
theorem Normalizer.Goes.after (eaten : List UInt8) (h : n.Goes v len p cur (eaten ++ rest))
    (hpos : n'.pos = n.pos + eaten.length) (hpath : ∀ i, n'.pos ≤ i → n'.path i = n.path i)
    (hgoing : n'.done = false) (hbehind : n'.outpos + n'.state.slack ≤ n'.pos)
    (hmeans : n'.state.Means n'.out p' cur' (n'.path n'.pos)) (hpending : Pending v p' cur' rest) :
    n'.Goes v len p' cur' rest := by
  refine ⟨fun i hi => ?_, ?_, hbehind, hmeans, hpending, hgoing⟩
  · have hunread := h.unread (eaten.length + i) (by simpa using hi)
    rw [hpath _ (Nat.le_add_right _ _), hpos, Nat.add_assoc, hunread]
    simp [getD_eq_getElem?_getD, getElem?_append_right]
  · have hlen := h.pos
    rw [length_append] at hlen
    omega

theorem walk_back_le (path : ℕ → UInt8) (outpos : ℕ) : walkBack path outpos ≤ outpos := by
  induction outpos with
  | zero => exact le_rfl
  | succ outpos ih =>
    rw [walkBack]
    split
    · exact le_rfl
    · omega

/-- The loop goes on to the result, with less than `m` rounds. -/
def Normalizer.Within (v : List UInt8) (len m : ℕ) (n : Normalizer) : Prop :=
  ∃ p cur rest, n.Goes v len p cur rest ∧ 4 * rest.length + n.state.rank < m

/-- The loop is over. -/
structure Normalizer.Ends (v : List UInt8) (len : ℕ) (n : Normalizer) : Prop where
  done : n.done = true
  short : n.outpos ≤ len
  result : n.result = v ∧ ∃ q : Parsed, q.Proper ∧ q.join = v

/-- Another state looks at the same character. -/
theorem Normalizer.Goes.stay (h : n.Goes v len p cur rest) {m : ℕ} (hrank : n'.state.rank < m)
    (hpos : n'.pos = n.pos) (hpath : ∀ i, n.pos ≤ i → n'.path i = n.path i)
    (hgoing : n'.done = false) (hbehind : n'.outpos + n'.state.slack ≤ n.pos)
    (hmeans : n'.state.Means n'.out p cur (n.path n.pos)) :
    n'.Within v len (4 * rest.length + m) := by
  rw [← hpath _ le_rfl, ← hpos] at hmeans
  exact ⟨p, cur, rest, h.after [] hpos (fun i hi => hpath i (hpos ▸ hi)) hgoing
    (hpos ▸ hbehind) hmeans h.pending, Nat.add_lt_add_left hrank _⟩

/-- Nothing is written. -/
theorem Normalizer.Goes.turn (h : n.Goes v len p cur rest) {old state : PathState}
    (hold : n.state = old) (hless : state.slack ≤ old.slack ∧ state.rank < old.rank)
    (hmeans : state.Means n.out p cur (n.path n.pos)) :
    Normalizer.Within v len (4 * rest.length + old.rank) { n with state := state } :=
  h.stay hless.2 rfl (fun _ _ => rfl) h.going
    ((Nat.add_le_add_left hless.1 _).trans (hold ▸ h.behind)) hmeans

/-- A character is eaten. -/
theorem Normalizer.Goes.eat (h : n.Goes v len p cur (x :: rest)) (m : ℕ) (hpos : n'.pos = n.pos + 1)
    (hpath : ∀ i, n.pos < i → n'.path i = n.path i) (hgoing : n'.done = false)
    (hbehind : n'.outpos + n'.state.slack ≤ n.pos + 1)
    (hmeans : n'.state.Means n'.out p' cur' (n'.path n'.pos)) (hpending : Pending v p' cur' rest) :
    n'.Within v len (4 * (x :: rest).length + m) := by
  refine ⟨p', cur', rest, h.after [x] hpos (fun i hi => hpath i (by omega)) hgoing
    (hpos ▸ hbehind) hmeans hpending, ?_⟩
  have hrank : n'.state.rank ≤ 3 := by cases n'.state <;> decide
  rw [length_cons]
  omega

/-- The string goes on if the character is not its end. -/
theorem Normalizer.Goes.cons (h : n.Goes v len p cur rest) (hc : n.path n.pos ≠ 0) :
    ∃ rest', rest = n.path n.pos :: rest' := by
  have hchar := h.unread 0 (Nat.zero_le _)
  cases rest with
  | nil => exact absurd hchar hc
  | cons x rest => exact ⟨rest, by rw [show n.path n.pos = x from hchar]⟩

/-- The end of the string. -/
theorem Normalizer.Goes.stop (h : n.Goes v len p cur rest) (hc : n.path n.pos = 0)
    (hdone : n'.done = true) (hle : n'.outpos ≤ n.outpos)
    (hout : n'.out = (p.visit cur).join ∨ n'.out = (p.visit cur).opened) : n'.Ends v len := by
  have hchar := h.unread 0 (Nat.zero_le _)
  cases rest with
  | nil =>
    refine ⟨hdone, hle.trans ?_, h.pending.finish hout⟩
    exact (Nat.le_add_right _ _).trans (h.behind.trans (h.pos ▸ Nat.le_add_right _ _))
  | cons x rest =>
    obtain rfl : 0 = x := hc.symm.trans hchar
    exact absurd (by simp) h.pending.zero

/-- Each round keeps the meaning of the variables, or is the last one. -/
theorem Normalizer.Goes.step (h : n.Goes v len p cur rest) :
    n.step.Ends v len ∨ n.step.Within v len (4 * rest.length + n.state.rank) := by
  have hmeans := h.means
  have hbehind := h.behind
  have hslash : ∀ {c : UInt8}, c = slash → c ≠ 0 := by
    rintro _ rfl
    decide
  unfold Normalizer.step
  cases hstate : n.state <;> rw [hstate] at hmeans hbehind <;> dsimp only
  case initial =>
    obtain ⟨hout, rfl, rfl⟩ := hmeans
    split_ifs with h1 h2
    · refine .inr (h.turn hstate (by decide) ⟨?_, h1⟩)
      simp [hout, h1, Parsed.visit, Parsed.opened, Parsed.join, render]
    · exact .inr (h.turn hstate (by decide) ⟨by simp [hout, h1, Parsed.opened], rfl, h2⟩)
    · exact .inr (h.turn hstate (by decide) ⟨by simp [hout, h1, Parsed.opened], rfl, h1⟩)
  case fieldStart =>
    obtain ⟨hout, rfl, h1⟩ := hmeans
    split_ifs with h2 h3
    · exact .inr (h.turn hstate (by decide) ⟨hout, rfl, h2⟩)
    · exact .inl (h.stop h3 rfl le_rfl (.inr hout))
    · exact .inr (h.turn hstate (by decide)
        ⟨hout.trans (append_nil _).symm, .inr ⟨h1, h3, by simp [Ordinary, h2]⟩⟩)
  case inField =>
    obtain ⟨hout, hordinary⟩ := hmeans
    split_ifs with h1 h2
    · have hcur := hordinary.resolve_right fun hor => hor.1 h1
      refine .inr (h.turn hstate (by decide) ⟨?_, h1⟩)
      rw [hout, ← join_push, ← visit_ordinary p hcur, Parsed.opened, if_pos]
      simp [visit_ordinary p hcur]
    · have hcur := hordinary.resolve_right fun hor => hor.2.1 h2
      exact .inl (h.stop h2 rfl le_rfl
        (.inl (by rw [visit_ordinary p hcur, join_push]; exact hout)))
    obtain ⟨rest, rfl⟩ := h.cons h2
    have hcur : Ordinary (cur ++ [n.path n.pos]) :=
      hordinary.elim (fun hcur => hcur.append _) fun hor => hor.2.2
    refine .inr (h.eat _ rfl (fun i hi => update_of_ne (by omega) ..) h.going ?_ ?_
      (h.pending.read h1))
    · show n.outpos + 1 + n.state.slack ≤ n.pos + 1
      rw [hstate]
      exact succ_le_succ hbehind
    · show n.state.Means (n.emit (n.path n.pos)).out p (cur ++ [n.path n.pos]) _
      rw [hstate, out_emit, hout, append_assoc]
      exact ⟨rfl, .inl hcur⟩
  case sep =>
    obtain ⟨hopened, h1⟩ := hmeans
    obtain ⟨rest, rfl⟩ := h.cons (hslash h1)
    exact .inr (h.eat _ rfl (fun i hi => update_of_ne (by omega) ..) h.going
      (succ_le_succ hbehind) ⟨(out_emit n slash).trans hopened, rfl⟩ (h.pending.visit h1))
  case seenSep =>
    obtain ⟨hout, rfl⟩ := hmeans
    split_ifs with h1 h2
    · obtain ⟨rest, rfl⟩ := h.cons (hslash h1)
      exact .inr (h.eat _ rfl (fun _ _ => rfl) h.going (le_succ_of_le hbehind) ⟨hout, rfl⟩
        (h.pending.visit h1))
    · exact .inl (h.stop h2 rfl le_rfl (.inr hout))
    · exact .inr (h.turn hstate (by decide) ⟨hout, rfl, h1⟩)
  case seenDot =>
    obtain ⟨hout, rfl⟩ := hmeans
    split_ifs with h1 h2 h3
    · exact .inr (h.turn hstate (by decide) ⟨hout, rfl, h1⟩)
    · obtain ⟨rest, rfl⟩ := h.cons (hslash h2)
      exact .inr (h.eat _ rfl (fun _ _ => rfl) h.going
        (le_succ_of_le (le_of_succ_le hbehind)) ⟨hout, rfl⟩ (h.pending.visit h2))
    · exact .inl (h.stop h3 rfl le_rfl (.inr hout))
    · refine .inr (h.stay Nat.one_lt_two rfl (fun i hi => update_of_ne ?_ ..) h.going hbehind
        ⟨(out_emit n period).trans (by rw [hout]), .inr ⟨h2, h3, by simp [Ordinary, h1]⟩⟩)
      exact (Nat.lt_of_lt_of_le hbehind hi).ne'
  case dot | dotdot =>
    obtain ⟨hout, rfl, h1⟩ := hmeans
    obtain ⟨rest, rfl⟩ := h.cons (by rw [h1]; decide)
    exact .inr (h.eat _ rfl (fun _ _ => rfl) h.going (succ_le_succ hbehind)
      ⟨hout, by rw [h1]; rfl⟩ (h.pending.read (by rw [h1]; decide)))
  case seenDotdot =>
    obtain ⟨hout, rfl⟩ := hmeans
    have hback := back_eq hout h.pending.proper
    have hle := (walk_back_le n.path (n.outpos - 1)).trans (sub_le ..)
    split_ifs with h1
    · rcases h1 with h1 | h1
      · obtain ⟨rest, rfl⟩ := h.cons (hslash h1)
        refine .inr (h.eat _ rfl (fun _ _ => rfl) (decide_eq_false (hslash h1)) ?_ ⟨hback, rfl⟩
          (h.pending.visit h1))
        exact (hle.trans (le_of_add_right_le hbehind)).trans (le_succ _)
      · exact .inl (h.stop h1 (decide_eq_true h1) hle (.inr hback))
    rw [not_or] at h1
    refine .inr (h.stay Nat.one_lt_two rfl (fun i hi => ?_) h.going hbehind
      ⟨?_, .inr ⟨h1.1, h1.2, by simp [Ordinary]⟩⟩)
    · have hlt := Nat.lt_of_lt_of_le hbehind hi
      exact (update_of_ne hlt.ne' ..).trans
        (update_of_ne (lt_of_succ_lt hlt).ne' ..)
    · exact (out_emit _ period).trans (by rw [out_emit, hout, append_assoc]; rfl)

theorem Normalizer.Within.run {m fuel : ℕ} (h : n.Within v len m) (hfuel : m ≤ fuel) :
    (Normalizer.run fuel n).Ends v len := by
  induction fuel generalizing n m with
  | zero =>
    obtain ⟨_, _, _, _, hlt⟩ := h
    omega
  | succ fuel ih =>
    obtain ⟨p, cur, rest, hgoes, hlt⟩ := h
    rw [Normalizer.run, hgoes.going, if_neg Bool.false_ne_true]
    rcases hgoes.step with hend | hnext
    · cases fuel with
      | zero => exact hend
      | succ fuel => rwa [Normalizer.run, if_pos hend.done]
    · exact ih hnext (by omega)

/-- The string ends at its first zero. -/
theorem getD_takeWhile (path : List UInt8) {i : ℕ} (hi : i ≤ (path.takeWhile (· ≠ 0)).length) :
    path.getD i 0 = (path.takeWhile (· ≠ 0)).getD i 0 := by
  induction path generalizing i with
  | nil => rfl
  | cons a path ih =>
    by_cases ha : a = 0
    · rw [takeWhile_cons_of_neg (by simpa using ha)] at hi ⊢
      rw [le_zero.mp hi, ha]
      rfl
    · rw [takeWhile_cons_of_pos (by simpa using ha)] at hi ⊢
      cases i with
      | zero => rfl
      | succ i => exact ih (le_of_succ_le_succ hi)

theorem normalize_path_ends (path : List UInt8) :
    (Normalizer.run (4 * path.length + 4) ⟨fun i => path.getD i 0, 0, 0, .initial, false⟩).Ends
      (referencePath (path.takeWhile (· ≠ 0))) (path.takeWhile (· ≠ 0)).length := by
  have hlength := (takeWhile_sublist (l := path) (· ≠ (0 : UInt8))).length_le
  have hunread (i : ℕ) := getD_takeWhile path (i := i)
  have hzero : 0 ∉ path.takeWhile (· ≠ 0) := fun h0 => by simpa using mem_takeWhile_imp h0
  generalize path.takeWhile (· ≠ 0) = str at hlength hunread hzero ⊢
  have hfirst : path.getD 0 0 = slash ↔ str.head? = some slash := by
    rw [hunread 0 (Nat.zero_le _)]
    cases str with
    | nil => decide
    | cons x rest => simp
  refine Normalizer.Within.run (m := 4 * str.length + 4)
    ⟨_, [], str, ⟨fun i hi => ?_, Nat.zero_add _,
    le_rfl, ⟨rfl, rfl, rfl⟩, ⟨forall_mem_nil _, ?_, not_mem_nil, hzero⟩,
    rfl⟩, lt_succ_self _⟩ (by omega)
  · rw [Nat.zero_add]
    exact hunread i hi
  · rw [referencePath, ← decide_eq_decide.mpr hfirst]
    rfl

end Loop

/-! ## The result -/

/-- An absolute path, once normalized, is the path of a list of components. -/
theorem exists_render {path : List UInt8} (h : (fsNormalizePath path).head? = some slash) :
    ∃ comps, comps ≠ [] ∧ (∀ c ∈ comps, Component c) ∧ fsNormalizePath path = render comps := by
  obtain ⟨hresult, ⟨absolute, comps⟩, hproper, hjoin⟩ := (normalize_path_ends path).result
  have hpath : Parsed.join ⟨absolute, comps⟩ = fsNormalizePath path := hjoin.trans hresult.symm
  rw [← hpath] at h ⊢
  cases comps with
  | nil => cases absolute <;> cases h
  | cons c cs =>
    have hcomps : ∀ d ∈ c :: cs, Component d := fun d hd => (hproper d hd).1
    cases absolute with
    | true => exact ⟨c :: cs, cons_ne_nil _ _, hcomps, rfl⟩
    | false =>
      -- the path begins with the first component
      have hc := hcomps c mem_cons_self
      cases c with
      | nil => exact absurd rfl hc.nonempty
      | cons a c =>
        obtain rfl : a = slash := Option.some.inj h
        exact absurd mem_cons_self hc.slash

theorem foldl_visit (h : ∀ c ∈ cs, Ordinary c) :
    cs.foldl Parsed.visit p = ⟨p.absolute, p.comps ++ cs⟩ := by
  induction cs generalizing p with
  | nil => rw [foldl_nil, append_nil]
  | cons c cs ih =>
    rw [forall_mem_cons] at h
    rw [foldl_cons, visit_ordinary p h.1, ih _ h.2, append_assoc, singleton_append]

/-- Nothing is left to do for a path of components. -/
theorem reference_join {p : Parsed} (h : p.Proper) : referencePath p.join = p.join := by
  obtain ⟨absolute, comps⟩ := p
  cases comps with
  | nil => cases absolute <;> rfl
  | cons c cs =>
    have hslash : ∀ d ∈ c :: cs, slash ∉ d := fun d hd => (h d hd).1.slash
    have hordinary : ∀ d ∈ c :: cs, Ordinary d := fun d hd => (h d hd).2
    have hsplit := splitOn_render (hslash c mem_cons_self) (forall_mem_cons.mp hslash).2
    cases absolute with
    | true =>
      have hsplit' : (slash :: (c ++ render cs)).splitOn slash = [] :: c :: cs := by
        rw [← hsplit]
        exact splitOn_append_cons_self_of_not_mem not_mem_nil _
      show Parsed.join
        (((slash :: (c ++ render cs)).splitOn slash).foldl Parsed.visit ⟨true, []⟩) = _
      rw [hsplit', foldl_cons]
      exact congrArg Parsed.join (foldl_visit ⟨true, []⟩ hordinary)
    | false =>
      have hhead : (c ++ render cs).head? ≠ some slash := by
        cases c with
        | nil => exact absurd rfl (hordinary [] mem_cons_self).1
        | cons a c =>
          exact fun heq => hslash _ mem_cons_self (Option.some.inj heq ▸ mem_cons_self)
      show Parsed.join (((c ++ render cs).splitOn slash).foldl Parsed.visit
        ⟨decide ((c ++ render cs).head? = some slash), []⟩) = _
      rw [hsplit, decide_eq_false hhead]
      exact congrArg Parsed.join (foldl_visit ⟨false, []⟩ hordinary)

/-- For every string: `fs_normalize_path` ends, its result is that of the reference, no longer than
the string, the path of components that are kept, and does not end with a slash; and normalizing it
again changes nothing. -/
theorem normalize_path_reference (path : List UInt8) :
    (Normalizer.run (4 * path.length + 4) ⟨fun i => path.getD i 0, 0, 0, .initial, false⟩).done ∧
    fsNormalizePath path = referencePath (path.takeWhile (· ≠ 0)) ∧
    (fsNormalizePath path).length ≤ (path.takeWhile (· ≠ 0)).length ∧
    (∃ p : Parsed, p.Proper ∧ fsNormalizePath path = p.join) ∧
    (fsNormalizePath path).getLast? ≠ some slash ∧
    fsNormalizePath (fsNormalizePath path) = fsNormalizePath path := by
  obtain ⟨hdone, hshort, hresult, p, hproper, hjoin⟩ := normalize_path_ends path
  have hpath : fsNormalizePath path = p.join := hresult.trans hjoin.symm
  refine ⟨hdone, hresult, ?_, ⟨p, hproper, hpath⟩, hpath ▸ hproper.getLast_join, ?_⟩
  · refine le_trans ?_ hshort
    unfold fsNormalizePath Normalizer.result
    split <;> simp [Normalizer.out]
  have hzero : 0 ∉ p.join := by
    have hrender := zero_not_mem_render fun c hc => (hproper c hc).1
    unfold Parsed.join
    split
    · exact hrender
    · exact fun hmem => hrender (mem_of_mem_tail hmem)
  have htake : p.join.takeWhile (· ≠ 0) = p.join :=
    takeWhile_eq_self_iff.mpr fun x hx => by
      simpa using fun h0 : x = 0 => hzero (h0 ▸ hx)
  rw [hpath]
  exact (normalize_path_ends p.join).result.1.trans (by rw [htake, reference_join hproper])

-- "/a//b/../c/." is "/a/c"
example : fsNormalizePath [0x2f, 0x61, 0x2f, 0x2f, 0x62, 0x2f, 0x2e, 0x2e, 0x2f, 0x63, 0x2f, 0x2e] =
    render [[0x61], [0x63]] := by decide +kernel

end NusaKernel.Fs

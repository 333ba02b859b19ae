import NusaKernel.Kernel.PortBuffer

/-!
# Port groups

A read port names its group in `gport`, and the group has it in its list. `groups_consistent` says
that the two agree in every run in which no port is removed from its group, no `port_group` fails
after it has linked a port, and no group is closed that has members. Each of these three leaves
one of the two behind, as `groups_inconsistent` shows.
-/

namespace NusaKernel.Port

open CircularList Placement List Function Option Transition

universe u

variable {Pid Tid Packet : Type u} {rp : ReadPort Pid Packet} {w : Pid} {wp : WritePort Pid Packet}
  {s'' : State Pid Tid Packet}

/-! ## What matters for groups -/

/-- What an object is to port groups. -/
inductive Role (Pid : Type u) where
  | other
  | member (gport : Option Pid)
  | group
  deriving DecidableEq

/-- The role of an object. -/
def Object.role {Packet : Type u} : Object Pid Packet → Role Pid
  | .read rp => .member rp.gport
  | .group => .group
  | .write _ => .other

variable (s : State Pid Tid Packet)

/-- The role of what is at an address. -/
def role (p : Pid) : Role Pid := (s.heap p).elim .other Object.role

/-- The group that a read port names. -/
def Role.gport : Role Pid → Option Pid
  | .member gport => gport
  | .other | .group => none

theorem Role.eq_member {role : Role Pid} {g : Pid} (h : role.gport = some g) :
    role = .member (some g) := by
  cases role with
  | member gport => exact congrArg _ h
  | other | group => cases h

theorem gport_eq (r : Pid) : gport s r = (role s r).gport := by
  unfold gport readPort? role
  cases s.heap r with
  | none => rfl
  | some object => cases object <;> rfl

theorem is_group_iff (g : Pid) :
    isGroup s g = true ↔ role s g = .group := by
  unfold isGroup role
  cases s.heap g with
  | none => simp
  | some object => cases object <;> simp [Object.role]

theorem read_port_is_some_iff (r : Pid) :
    (readPort? s r).isSome = true ↔ ∃ gport, role s r = .member gport := by
  unfold readPort? role
  cases s.heap r with
  | none => simp
  | some object => cases object <;> simp [Object.role]

theorem role_of_read {s : State Pid Tid Packet} {r : Pid} (h : readPort? s r = some rp) :
    role s r = .member rp.gport := by
  rw [role, read_port_eq_some.mp h]
  rfl

theorem role_of_write {s : State Pid Tid Packet} (h : writePort? s w = some wp) :
    role s w = .other := by
  rw [role, write_port_eq_some.mp h]
  rfl

theorem ungrouped_iff (r : Pid) :
    ungrouped s r = true ↔ role s r = .member none := by
  unfold ungrouped readPort? role
  cases s.heap r with
  | none => simp
  | some object => cases object <;> simp [Object.role]

/-- Nothing that matters for groups has changed. -/
structure SameGroups (s s' : State Pid Tid Packet) : Prop where
  links : s'.links = s.links
  role : ∀ p, role s' p = role s p

theorem SameGroups.refl : SameGroups s s := ⟨rfl, fun _ => rfl⟩

theorem SameGroups.trans {s s' : State Pid Tid Packet} (h : SameGroups s s')
    (h' : SameGroups s' s'') : SameGroups s s'' :=
  ⟨h'.links.trans h.links, fun p => (h'.role p).trans (h.role p)⟩

theorem SameGroups.gport_eq {s s' : State Pid Tid Packet} (h : SameGroups s s') :
    gport s' = gport s := by
  funext r
  rw [Port.gport_eq, Port.gport_eq, h.role]

/-! ## The invariant -/

/-- With `lists g` for the members of a group `g`: each read port is in the list of the group it
names, the links make up these lists, and the node of a port in no group is in no list. -/
structure GroupInv (s : State Pid Tid Packet) (lists : Pid → List Pid) : Prop where
  placed : Placed lists fun r => (role s r).gport
  is_list : ∀ g, role s g = .group → IsList s.links (.head g) ((lists g).map .member)
  group : ∀ r g, role s r = .member (some g) → role s g = .group
  unlinked : ∀ r, role s r = .member none → s.links.allocated (.member r) = true ∧
    s.links.prev (.member r) = none ∧ s.links.next (.member r) = none
  bounded : ∀ g, (lists g).length ≤ maxPortGroupCount

/-- What a call leaves that is made while no thread is in `port_read`. -/
structure Keeps (s s' : State Pid Tid Packet) : Prop where
  groups : ∃ lists, GroupInv s' lists
  settled : Settled s → Settled s'

variable {s s' : State Pid Tid Packet} {lists : Pid → List Pid} {g r p : Pid} {memory : Bool}
  {result : Status × State Pid Tid Packet}

theorem GroupInv.initial : GroupInv (initial : State Pid Tid Packet) fun _ => [] := by
  refine ⟨Placed.empty, nofun, nofun, nofun, fun _ => Nat.zero_le _⟩

theorem role_of_free (h : ¬ (s.heap p).isSome = true) : role s p = .other := by
  rw [Bool.not_eq_true, isSome_eq_false_iff, isNone_iff_eq_none] at h
  simp [role, h]

theorem map_port_member (ports : List Pid) :
    (ports.map GroupNode.member).mapM GroupNode.port? = some ports := by
  induction ports with
  | nil => rfl
  | cons r rest ih => simp [mapM_cons, ih, GroupNode.port?]

section

variable (hinv : GroupInv s lists)
include hinv

theorem GroupInv.keeps : Keeps s s := ⟨⟨lists, hinv⟩, id⟩

theorem GroupInv.lists_eq_nil (h : role s g ≠ .group) : lists g = [] := by
  refine eq_nil_iff_forall_not_mem.mpr fun r hr => ?_
  exact h (hinv.group r g (Role.eq_member ((hinv.placed.mem_iff g r).mp hr)))

/-- The lists of two groups have no node in common, nor has that of one group a node of a port
that is not its member. -/
theorem GroupInv.node_not_mem {x : GroupNode Pid}
    (hx : x ∈ GroupNode.head g :: (lists g).map .member) :
    (∀ q, q ≠ g → x ∉ GroupNode.head q :: (lists q).map .member) ∧
      ∀ r, r ∉ lists g → x ≠ .member r := by
  refine ⟨?_, ?_⟩
  · intro q hq hmem
    simp only [mem_cons, List.mem_map] at hx hmem
    rcases hx with rfl | ⟨r, hr, rfl⟩
    · simp [hq.symm] at hmem
    · simp only [reduceCtorEq, GroupNode.member.injEq, exists_eq_right, false_or] at hmem
      exact hq (hinv.placed.unique hmem hr)
  intro r hr heq
  simp only [mem_cons, List.mem_map] at hx
  rcases hx with rfl | ⟨q, hq, rfl⟩
  · cases heq
  · cases heq
    exact hr hq

theorem GroupInv.of_same_groups (h : SameGroups s s') : GroupInv s' lists := by
  refine ⟨hinv.placed.congr fun r => by rw [h.role], ?_, ?_, ?_, hinv.bounded⟩
  · intro g hg
    rw [h.role] at hg
    rw [h.links]
    exact hinv.is_list g hg
  · intro r g hr
    rw [h.role] at hr ⊢
    exact hinv.group r g hr
  · intro r hr
    rw [h.role] at hr
    rw [h.links]
    exact hinv.unlinked r hr

end

variable [DecidableEq Pid]

theorem role_store (s : State Pid Tid Packet) (p : Pid) (object : Object Pid Packet) :
    role (store s p object) = update (role s) p object.role := by
  funext q
  exact apply_update (fun _ object => Option.elim object .other Object.role) s.heap p _ q

theorem role_release (s : State Pid Tid Packet) (p : Pid) :
    role (release s p) = update (role s) p .other := by
  funext q
  exact apply_update (fun _ object => Option.elim object .other Object.role) s.heap p _ q

theorem SameGroups.store (p : Pid) (object : Object Pid Packet)
    (hrole : object.role = Port.role s p) : SameGroups s (store s p object) := by
  refine ⟨rfl, fun q => ?_⟩
  rw [role_store, hrole, update_eq_self]

/-! ## Making and freeing groups, linking and unlinking ports -/

section

variable (hinv : GroupInv s lists)
include hinv

/-- A read port joins or leaves the list of a group, while the links of all other ports and
groups stay as they are. -/
theorem GroupInv.relist {list : List Pid} {old : Option Pid} {new : Role Pid}
    (hg : role s g = .group) (hold : role s r = .member old) (hother : ∀ q, q ≠ g → r ∉ lists q)
    (hnew : new = .other ∨ new = .member (some g))
    (hrole : role s' = update (role s) r new)
    (hplaced : Placed (update lists g list) (update (fun q => (role s q).gport) r new.gport))
    (hlist : IsList s'.links (.head g) (list.map .member))
    (hbound : list.length ≤ maxPortGroupCount)
    (hframe : ∀ x, x ≠ .member r → x ∉ GroupNode.head g :: (lists g).map .member →
      SameAt s.links s'.links x) : GroupInv s' (update lists g list) := by
  have hsame : ∀ q, q ≠ r → role s' q = role s q := by
    intro q hq
    rw [hrole, update_of_ne hq]
  have hself : role s' r = new := by rw [hrole, update_self]
  have hne : ∀ q, role s q = .group → q ≠ r := by
    intro q hq heq
    rw [heq, hold] at hq
    cases hq
  have hback {q : Pid} (hno : role s' q ≠ .other) (hmember : role s' q ≠ .member (some g)) :
      q ≠ r := by
    rintro rfl
    rw [hself] at hno hmember
    exact hnew.elim hno hmember
  refine ⟨hplaced.congr fun q => by rw [hrole, apply_update fun _ => Role.gport], ?_, ?_, ?_, ?_⟩
  · intro q hq
    rw [hsame q (hback (by rw [hq]; nofun) (by rw [hq]; nofun))] at hq
    by_cases hqg : q = g
    · rw [hqg, update_self]
      exact hlist
    · rw [update_of_ne hqg]
      refine (hinv.is_list q hq).congr fun x hx => ?_
      obtain ⟨hlists, hports⟩ := hinv.node_not_mem hx
      exact hframe x (hports r (hother q hqg)) (hlists g (Ne.symm hqg))
  · intro q h hq
    by_cases hqr : q = r
    · rw [hqr, hself] at hq
      rcases hnew with hn | hn
      · rw [hn] at hq
        cases hq
      · rw [hn] at hq
        cases hq
        rw [hsame g (hne g hg)]
        exact hg
    · rw [hsame q hqr] at hq
      have hh := hinv.group q h hq
      rw [hsame h (hne h hh)]
      exact hh
  · intro q hq
    have hqr : q ≠ r := hback (by rw [hq]; nofun) (by rw [hq]; nofun)
    rw [hsame q hqr] at hq
    have hnot : q ∉ lists g := hinv.placed.not_mem (by rw [hq]; rfl) g
    obtain ⟨halloc, hprev, hnext⟩ := hframe (.member q) (by simpa using hqr) (by simpa using hnot)
    rw [halloc, hprev, hnext]
    exact hinv.unlinked q hq
  · exact (forall_update_iff lists fun _ list => list.length ≤ maxPortGroupCount).mpr
      ⟨hbound, fun q _ => hinv.bounded q⟩

theorem GroupInv.link_port (hg : role s g = .group) (hr : role s r = .member none)
    (hroom : (lists g).length < maxPortGroupCount) :
    ∃ s', linkPort s g r = some s' ∧ role s' = update (role s) r (.member (some g)) ∧
      GroupInv s' (update lists g (lists g ++ [r])) ∧ (Settled s → Settled s') := by
  obtain ⟨rp, hrp⟩ := isSome_iff_exists.mp ((read_port_is_some_iff s r).mpr ⟨none, hr⟩)
  have hnone : (role s r).gport = none := by
    rw [hr]
    rfl
  have hnot := hinv.placed.not_mem hnone
  have hitem : GroupNode.member r ∉ GroupNode.head g :: (lists g).map .member := by
    simpa using hnot g
  obtain ⟨links, hadd, hlist, hframe⟩ := (hinv.is_list g hg).add_tail hitem (hinv.unlinked r hr).1
  have hlink : linkPort s g r =
      some { store s r (.read { rp with gport := some g }) with links } := by
    simp [linkPort, setGport, hrp, Port.store, hadd]
  have hrole : role (store s r (.read { rp with gport := some g })) =
      update (role s) r (.member (some g)) := role_store s r _
  refine ⟨_, hlink, hrole, ?_, fun h => ⟨h.bufs.store_read hrp rfl, h.quiet⟩⟩
  refine hinv.relist hg hr (fun q _ => hnot q) (.inr rfl) hrole (hinv.placed.append hnone) ?_ ?_ ?_
  · rw [map_append]
    exact hlist
  · rw [length_append]
    exact hroom
  intro x hxr hxg
  have hx : x ∉ GroupNode.member r :: GroupNode.head g :: (lists g).map .member := by
    rw [mem_cons]
    exact not_or.mpr ⟨hxr, hxg⟩
  exact hframe.same_at hx

/-- An object that is in no group and has no members comes or goes, while the links of all others
stay as they are. -/
theorem GroupInv.replace {new : Role Pid} (hrole : role s' = update (role s) p new)
    (hold : (role s p).gport = none) (hempty : lists p = []) (hnew : new.gport = none)
    (hlist : new = .group → IsList s'.links (.head p) [])
    (hunlinked : new = .member none → s'.links.allocated (.member p) = true ∧
      s'.links.prev (.member p) = none ∧ s'.links.next (.member p) = none)
    (hframe : ∀ x, x ≠ .head p → x ≠ .member p → SameAt s.links s'.links x) :
    GroupInv s' lists := by
  have hsame : ∀ q, q ≠ p → role s' q = role s q := by
    intro q hq
    rw [hrole, update_of_ne hq]
  have hself : role s' p = new := by rw [hrole, update_self]
  refine ⟨(hinv.placed.stay (hnew.trans hold.symm)).congr fun q => ?_, ?_, ?_, ?_, hinv.bounded⟩
  · rw [hrole, apply_update fun _ => Role.gport]
  · intro q hq
    by_cases hqp : q = p
    · rw [hqp, hself] at hq
      rw [hqp, hempty]
      exact hlist hq
    rw [hsame q hqp] at hq
    refine (hinv.is_list q hq).congr fun x hx => ?_
    obtain ⟨hlists, hports⟩ := hinv.node_not_mem hx
    refine hframe x ?_ (hports p (hinv.placed.not_mem hold q))
    intro heq
    exact hlists p (Ne.symm hqp) (by simp [heq])
  · intro q h hq
    by_cases hqp : q = p
    · rw [hqp, hself] at hq
      rw [hq] at hnew
      cases hnew
    rw [hsame q hqp] at hq
    have hhp : h ≠ p := by
      intro heq
      have hmem : q ∈ lists h := (hinv.placed.mem_iff h q).mpr (by rw [hq]; rfl)
      rw [heq, hempty] at hmem
      cases hmem
    rw [hsame h hhp]
    exact hinv.group q h hq
  · intro q hq
    by_cases hqp : q = p
    · rw [hqp, hself] at hq
      rw [hqp]
      exact hunlinked hq
    · rw [hsame q hqp] at hq
      obtain ⟨halloc, hprev, hnext⟩ := hframe (.member q) nofun (by simpa using hqp)
      rw [halloc, hprev, hnext]
      exact hinv.unlinked q hq

theorem GroupInv.new_group (hfree : role s g = .other) :
    ∃ links, makeHead (s.links.alloc (.head g)) (.head g) = some links ∧
      GroupInv { store s g .group with links } lists := by
  have halloc : (s.links.alloc (.head g)).allocated (.head g) = true := update_self _ _ _
  refine ⟨_, make_head_eq halloc, ?_⟩
  refine hinv.replace (role_store s g .group) (by rw [hfree]; rfl)
    (hinv.lists_eq_nil (by rw [hfree]; exact nofun)) rfl ?_ nofun ?_
  · intro _
    exact IsList.make_head halloc (make_head_eq halloc)
  · intro x hx _
    exact (SameAt.alloc s.links hx).trans (SameAt.make_head halloc (make_head_eq halloc) hx)

/-- Freeing a group without members. -/
theorem GroupInv.free_group (hg : role s g = .group) (hempty : lists g = []) :
    GroupInv (freeGroup s g) lists := by
  refine hinv.replace (role_release s g) (by rw [hg]; rfl) hempty rfl nofun nofun ?_
  intro x hx _
  exact .free s.links hx

theorem GroupInv.new_read (hfree : role s p = .other) (hgport : rp.gport = none) :
    GroupInv { store s p (.read rp) with links := s.links.alloc (.member p) } lists := by
  refine hinv.replace (role_store s p (.read rp)) (by rw [hfree]; rfl)
    (hinv.lists_eq_nil (by rw [hfree]; exact nofun)) hgport nofun ?_ ?_
  · simp [Links.alloc]
  · intro x _ hx
    exact .alloc s.links hx

theorem GroupInv.free_read (hp : role s p = .member none) :
    GroupInv { release s p with links := s.links.free (.member p) } lists := by
  refine hinv.replace (role_release s p) (by rw [hp]; rfl)
    (hinv.lists_eq_nil (by rw [hp]; exact nofun)) rfl nofun nofun ?_
  intro x _ hx
  exact .free s.links hx

/-- Unlinking a read port from its group and freeing it. -/
theorem GroupInv.free_member (hp : role s p = .member (some g)) :
    ∃ links, delete s.links (.member p) = some links ∧
      GroupInv { release s p with links := links.free (.member p) }
        (update lists g ((lists g).erase p)) := by
  have hg := hinv.group p g hp
  have hplace : (role s p).gport = some g := by
    rw [hp]
    rfl
  have hmem : p ∈ lists g := (hinv.placed.mem_iff g p).mpr hplace
  obtain ⟨links, hdelete, hlist, _, _, hframe⟩ :=
    (hinv.is_list g hg).delete (List.mem_map_of_mem hmem)
  have hinjective : Injective (GroupNode.member : Pid → GroupNode Pid) :=
    fun a b heq => GroupNode.member.inj heq
  refine ⟨links, hdelete, ?_⟩
  refine hinv.relist hg hp ?_ (.inl rfl) (role_release s p) (hinv.placed.erase hplace) ?_ ?_ ?_
  · intro q hq hmem'
    exact hq (hinv.placed.unique hmem' hmem)
  · rw [map_erase hinjective]
    have hnot : ∀ x ∈ GroupNode.head g :: ((lists g).map GroupNode.member).erase (.member p),
        x ≠ .member p := by
      intro x hx heq
      rcases mem_cons.mp hx with rfl | hx
      · cases heq
      · rw [heq] at hx
        exact (nodup_cons.mp (hinv.is_list g hg).nodup).2.not_mem_erase hx
    exact hlist.congr fun x hx => SameAt.free links (hnot x hx)
  · exact length_erase_le.trans (hinv.bounded g)
  · intro x hxp hxg
    exact (hframe.same_at hxg).trans (SameAt.free links hxp)

end

/-- The loop over the list of a group visits its members. -/
theorem GroupInv.members_eq (hinv : GroupInv s lists) (hg : role s g = .group) :
    members s g = some (lists g) := by
  have hfuel : ((lists g).map GroupNode.member).length < maxPortGroupCount + 1 := by
    rw [length_map]
    exact Nat.lt_succ_of_le (hinv.bounded g)
  unfold members
  rw [(hinv.is_list g hg).walk hfuel, bind_eq_bind, bind_some, map_port_member]

/-! ## The functions -/

theorem GroupInv.link_ports (ports linked : List Pid) (hinv : GroupInv s lists)
    (hg : role s g = .group) (hports : ∀ r ∈ ports, role s r = .member none)
    (hnodup : ports.Nodup) (hroom : (lists g).length + ports.length ≤ maxPortGroupCount) :
    ∃ s', linkPorts s g linked ports = some (noError, s') ∧ Keeps s s' := by
  induction ports generalizing s lists linked with
  | nil => exact ⟨s, rfl, hinv.keeps⟩
  | cons r rest ih =>
    rw [length_cons] at hroom
    have hr := hports r (by simp)
    obtain ⟨s₁, hlink, hrole, hinv₁, hsettled⟩ := hinv.link_port hg hr (by omega)
    obtain ⟨hnot, hrest⟩ := nodup_cons.mp hnodup
    have hsame : ∀ q, q ≠ r → role s₁ q = role s q := by
      intro q hq
      rw [hrole, update_of_ne hq]
    have hgr : g ≠ r := by
      intro heq
      rw [heq, hr] at hg
      cases hg
    obtain ⟨s', hlinks, hkeeps⟩ := ih (linked ++ [r]) hinv₁ (by rw [hsame g hgr, hg])
      (fun q hq => by
        rw [hsame q (fun heq => hnot (heq ▸ hq))]
        exact hports q (mem_cons_of_mem r hq))
      hrest (by
        simp only [update_self, length_append, length_singleton]
        omega)
    refine ⟨s', ?_, hkeeps.groups, hkeeps.settled ∘ hsettled⟩
    have hungrouped : ungrouped s r = true := (ungrouped_iff s r).mpr hr
    simp [linkPorts, hungrouped, hlink, hlinks]

theorem GroupInv.port_group (hinv : GroupInv s lists) {ports : List Pid} (hfree : role s g = .other)
    (hguard : maxPortGroupCount < ports.length ∨ memory = false ∨
      (∃ r ∈ ports.head?, ungrouped s r = false) ∨
      ports.Nodup ∧ ∀ r ∈ ports, ungrouped s r = true)
    (hgroup : portGroup s ports memory g = some result) : Keeps s result.2 := by
  obtain ⟨links, hhead, hinv₀⟩ := hinv.new_group hfree
  have hempty : lists g = [] := hinv.lists_eq_nil (by rw [hfree]; exact nofun)
  have hsettled (h : Settled s) : Settled { store s g .group with links } :=
    ⟨h.bufs.store nofun, h.quiet⟩
  have hrole : role (store s g .group) = update (role s) g .group := role_store s g .group
  have hg : role (store s g .group) g = .group := by rw [hrole, update_self]
  have hungrouped : ∀ r, ungrouped ({ store s g .group with links } : State Pid Tid Packet) r =
      ungrouped s r := by
    intro r
    rw [Bool.eq_iff_iff, ungrouped_iff, ungrouped_iff]
    show role (store s g .group) r = _ ↔ _
    rw [hrole]
    by_cases hr : r = g
    · simp [hr, hfree]
    · simp [hr]
  unfold portGroup at hgroup
  split at hgroup
  · cases hgroup
    exact hinv.keeps
  next hcount =>
  split at hgroup
  · cases hgroup
    exact hinv.keeps
  next hmemory =>
  rw [hhead, bind_eq_bind, bind_some] at hgroup
  rcases hguard with h | h | ⟨r, hr, hno⟩ | ⟨hnodup, hall⟩
  · exact absurd h hcount
  · simp [h] at hmemory
  · -- the first port cannot be linked: nothing to undo
    obtain ⟨rest, rfl⟩ := head?_eq_some_iff.mp hr
    simp only [linkPorts, hungrouped r, hno, clearGports] at hgroup
    cases hgroup
    exact ⟨⟨lists, hinv₀.free_group hg hempty⟩, fun h => ⟨(hsettled h).bufs.release, h.quiet⟩⟩
  have hports : ∀ r ∈ ports, role (store s g .group) r = .member none := by
    intro r hr
    rw [← ungrouped_iff]
    exact (hungrouped r).trans (hall r hr)
  obtain ⟨s', hlinks, hkeeps⟩ := hinv₀.link_ports ports [] hg hports hnodup
    (by rw [hempty, length_nil]; omega)
  simp only [hlinks, bind_eq_bind, bind_some, if_pos] at hgroup
  cases hgroup
  exact ⟨hkeeps.groups, hkeeps.settled ∘ hsettled⟩

variable {name : List UInt8}

theorem GroupInv.port_create (hinv : GroupInv s lists) {mode : BitVec 32}
    (hfree : role s p = .other) : Keeps s (portCreate s name mode memory p).2.2 := by
  rcases port_create_cases s name mode memory p with ⟨_, _, -, heq⟩ | ⟨wp, -, ⟨big, hbuf⟩, heq⟩
  · rw [heq]
    exact hinv.keeps
  have hsame : SameGroups s
      { store s p (.write wp) with writePortList := s.writePortList ++ [p] } :=
    (SameGroups.store p (.write wp) hfree.symm).trans ⟨rfl, fun _ => rfl⟩
  rw [heq]
  refine ⟨⟨lists, hinv.of_same_groups hsame⟩, fun h => ⟨h.bufs.store fun buf hwp => ?_, h.quiet⟩⟩
  obtain rfl := some.inj (hbuf.symm.trans hwp)
  exact buf_inv_make_buf big

theorem GroupInv.port_open (hinv : GroupInv s lists) {ctx : ℕ} (hfree : role s p = .other) :
    Keeps s (portOpen s name ctx memory p).2 := by
  rcases port_open_cases s name ctx memory p with
    ⟨_, -, heq⟩ | ⟨w, wp, buf, hlookup, hbuf, heq⟩
  · rw [heq]
    exact hinv.keeps
  have hwp := write_port_of_lookup hlookup
  have hsame : SameGroups s
      (store s w (.write { wp with buf := none, rpList := wp.rpList ++ [p] })) :=
    .store _ _ (role_of_write hwp).symm
  have hbufs (h : Settled s) : BufsInv
      (store s w (.write { wp with buf := none, rpList := wp.rpList ++ [p] })) :=
    h.bufs.store nofun
  rw [heq]
  refine ⟨⟨lists, (hinv.of_same_groups hsame).new_read ((hsame.role p).trans hfree) rfl⟩,
    fun h => ⟨(hbufs h).store fun buf' heq => ?_, h.quiet⟩⟩
  cases heq
  rcases hbuf with hbuf | ⟨-, rfl⟩
  · exact h.bufs.write hwp hbuf
  · exact buf_inv_make_buf false

/-- The buffer of the last read port goes back to the write port. -/
theorem SameGroups.detach (hr : readPort? s r = some rp) (hdetach : Port.detach s r rp = some s') :
    SameGroups s s' ∧ (Settled s → Settled s') := by
  unfold Port.detach at hdetach
  split at hdetach
  · cases hdetach
    exact ⟨.refl s, id⟩
  obtain ⟨wp, hwp, rfl⟩ := map_eq_some_iff.mp hdetach
  refine ⟨.store _ _ (role_of_write hwp).symm,
    fun h => ⟨h.bufs.store fun buf heq => ?_, h.quiet⟩⟩
  split at heq
  · cases heq
    exact h.bufs.read hr
  · exact h.bufs.write hwp heq

theorem SameGroups.read_members (ports : List Pid)
    {result : (ℕ × Option Packet) × State Pid Tid Packet}
    (hread : readMembers s ports = some (some result)) : SameGroups s result.2 := by
  induction ports with
  | nil => cases hread
  | cons r rest ih =>
    obtain ⟨rp, hrp, hread⟩ := bind_eq_some_iff.mp hread
    split at hread
    · cases hread
      exact .store _ _ (role_of_read hrp).symm
    · exact ih hread

theorem port_group_remove_eq (hnot : gport s r ≠ some g)
    (hremove : portGroupRemove s g r = some result) : result.2 = s := by
  unfold portGroupRemove at hremove
  split at hremove <;> cases hremove <;> rfl

variable [DecidableEq Tid] {t : Tid}
  {outcome : Outcome Packet × State Pid Tid Packet} {action : Action Pid Tid Packet}
  {timeout : Time}

theorem GroupInv.port_group_add (hinv : GroupInv s lists) (hadd : portGroupAdd s g r = some
    result) : Keeps s result.2 := by
  unfold portGroupAdd at hadd
  split at hadd
  · cases hadd
    exact hinv.keeps
  next hg =>
  split at hadd
  · cases hadd
    exact hinv.keeps
  next hr =>
  have hg' : role s g = .group := (is_group_iff s g).mp (by simpa using hg)
  have hr' : role s r = .member none := (ungrouped_iff s r).mp (by simpa using hr)
  rw [hinv.members_eq hg', bind_eq_bind, bind_some] at hadd
  split at hadd
  · cases hadd
    exact hinv.keeps
  next hcount =>
  have hbound := hinv.bounded g
  obtain ⟨rp, hrp⟩ := isSome_iff_exists.mp ((read_port_is_some_iff s r).mpr ⟨none, hr'⟩)
  obtain ⟨s', hlink, _, hinv', hsettled⟩ := hinv.link_port hg' hr' (by omega)
  rw [hrp, hlink] at hadd
  cases hadd
  refine ⟨⟨_, hinv'.of_same_groups ⟨rfl, fun _ => rfl⟩⟩, fun h => ⟨(hsettled h).bufs, ?_⟩⟩
  rw [Waiters.wake_one_of_nil _ ((hsettled h).quiet.list_eq_nil g), ite_self]
  exact (hsettled h).quiet

/-! ## The functions that do not touch groups -/

theorem SameGroups.wake_reader (h : SameGroups s s') {gport : Option Pid}
    (hwake : wakeReader s' r gport = some s'') : SameGroups s s'' := by
  cases gport with
  | none =>
    cases hwake
    exact h.trans ⟨rfl, fun _ => rfl⟩
  | some g =>
    obtain ⟨_, ⟨⟩⟩ := ite_none_left_eq_some.mp hwake
    exact h.trans ⟨rfl, fun _ => rfl⟩

theorem SameGroups.write_readers (packets : List Packet) (readers : List Pid) {status : Status}
    (h : SameGroups s s') (hwrite : writeReaders s' packets status readers = some result) :
    SameGroups s result.2 := by
  induction readers generalizing s' status with
  | nil =>
    cases hwrite
    exact h
  | cons r rest ih =>
    obtain ⟨rp, hrp, hwrite⟩ := bind_eq_some_iff.mp hwrite
    simp only at hwrite
    split at hwrite
    · exact ih h hwrite
    · obtain ⟨s₁, hwake, hwrite⟩ := bind_eq_some_iff.mp hwrite
      refine ih (SameGroups.wake_reader ?_ hwake) hwrite
      exact h.trans (.store r _ (role_of_read hrp).symm)

theorem SameGroups.port_write {packets : List Packet} (hwrite : portWrite s w packets = some
    result) :
    SameGroups s result.2 := by
  unfold portWrite at hwrite
  split at hwrite
  · cases hwrite
    exact .refl s
  next wp hwp =>
  split at hwrite
  · cases hwrite
    exact .refl s
  · split at hwrite
    · cases hwrite
      exact .store _ _ (role_of_write hwp).symm
    · exact (SameGroups.refl s).write_readers packets wp.rpList hwrite

theorem SameGroups.block_reader (hphase : s.waiters.phase t = .running) :
    SameGroups s (blockReader s t p timeout hphase).2 := by
  unfold blockReader
  split
  · exact .refl s
  · exact ⟨rfl, fun _ => rfl⟩

theorem SameGroups.port_read {result : Outcome Packet × State Pid Tid Packet}
    (hphase : s.waiters.phase t = .running) (hread : portRead s t p timeout hphase = some result) :
    SameGroups s result.2 := by
  unfold portRead at hread
  split at hread
  · next rp hrp =>
    cases hread
    unfold readNoLock
    split
    · refine .store _ _ ?_
      simp [Port.role, hrp, Object.role]
    · exact .block_reader hphase
  · obtain ⟨ports, _, hread⟩ := bind_eq_some_iff.mp hread
    obtain ⟨found, hfound, hread⟩ := bind_eq_some_iff.mp hread
    split at hread
    · cases hread
      exact .read_members ports hfound
    · cases hread
      exact .block_reader hphase
  · cases hread
    exact .refl s

theorem SameGroups.resume_read {call : ReadCall Pid} {ret : Status}
    {result : Outcome Packet × State Pid Tid Packet} (hphase : s.waiters.phase t = .woken call ret)
    (hresume : resumeRead s t call ret hphase = some result) : SameGroups s result.2 := by
  have hwaiters : SameGroups s { s with waiters := s.waiters.resume t call ret hphase } :=
    ⟨rfl, fun _ => rfl⟩
  unfold resumeRead at hresume
  simp only at hresume
  split at hresume
  · cases hresume
    exact hwaiters
  · split at hresume
    · cases hresume
    · exact hwaiters.trans (SameGroups.port_read _ hresume)

/-- Nobody is there to be cancelled. -/
theorem Settled.cancel_group (h : Settled s) {waiters : Waiters Pid Tid (ReadCall Pid)}
    {gport : Option Pid}
    (hcancel : cancelGroup s (s.waiters.waitQueueWakeAll r errCancelled).2 gport = some waiters) :
    waiters = s.waiters := by
  rw [Waiters.wake_all_of_nil _ (h.quiet.list_eq_nil r)] at hcancel
  cases gport with
  | none =>
    cases hcancel
    rfl
  | some g =>
    obtain ⟨_, hcancel⟩ := ite_none_right_eq_some.mp hcancel
    cases hcancel
    rw [Waiters.wake_all_of_nil _ (h.quiet.list_eq_nil g)]

theorem SameGroups.cancel_readers (readers : List Pid)
    (hcancel : cancelReaders s readers = some s') :
    SameGroups s s' ∧ (Settled s → Settled s') := by
  induction readers generalizing s with
  | nil =>
    cases hcancel
    exact ⟨.refl _, id⟩
  | cons r rest ih =>
    obtain ⟨rp, hrp, hcancel⟩ := bind_eq_some_iff.mp hcancel
    obtain ⟨waiters, hgroup, hcancel⟩ := bind_eq_some_iff.mp hcancel
    obtain ⟨hsame, hsettled⟩ := ih hcancel
    have hstore : SameGroups s { Port.store s r (.read { rp with wport := none }) with waiters } :=
      (SameGroups.store r (.read { rp with wport := none }) (role_of_read hrp).symm).trans
        ⟨rfl, fun _ => rfl⟩
    refine ⟨hstore.trans hsame, fun h => hsettled ?_⟩
    obtain rfl := h.cancel_group hgroup
    exact ⟨h.bufs.store_read hrp rfl, h.quiet⟩

/-- Freeing a write port leaves the groups alone. -/
theorem GroupInv.port_destroy (hinv : GroupInv s lists)
    (hdestroy : portDestroy s w = some result) : Keeps s result.2 := by
  unfold portDestroy at hdestroy
  split at hdestroy
  · cases hdestroy
    exact hinv.keeps
  next wp hwp =>
  split at hdestroy
  · cases hdestroy
    exact hinv.keeps
  obtain ⟨s', hcancel, rfl⟩ := map_eq_some_iff.mp hdestroy
  have hlist : SameGroups s { s with writePortList := s.writePortList.erase w } :=
    ⟨rfl, fun _ => rfl⟩
  have hrest : SameGroups { s with writePortList := s.writePortList.erase w } s' ∧
      (Settled { s with writePortList := s.writePortList.erase w } → Settled s') := by
    split at hcancel
    · cases hcancel
      exact ⟨.refl _, id⟩
    · exact SameGroups.cancel_readers wp.rpList hcancel
  have hsame := hlist.trans hrest.1
  have hrelease : SameGroups s' (release s' w) := by
    refine ⟨rfl, fun q => ?_⟩
    rw [role_release]
    by_cases hq : q = w
    · rw [hq, update_self, hsame.role, role_of_write hwp]
    · rw [update_of_ne hq]
  refine ⟨⟨lists, hinv.of_same_groups (hsame.trans hrelease)⟩, fun h => ?_⟩
  have hsettled := hrest.2 ⟨h.bufs, h.quiet⟩
  exact ⟨hsettled.bufs.release, hsettled.quiet⟩

/-! ## Runs -/

/-- No port is removed from its group; a `port_group` whose first port can be linked can link all
its ports; and a group is closed only without members. -/
def KeepsGroups (s : State Pid Tid Packet) : Action Pid Tid Packet → Prop
  | .group ports memory _ =>
    maxPortGroupCount < ports.length ∨ memory = false ∨
      (∃ r ∈ ports.head?, ungrouped s r = false) ∨
      ports.Nodup ∧ ∀ r ∈ ports, ungrouped s r = true
  | .groupRemove g r => gport s r ≠ some g
  | .close p => isGroup s p = true → ∀ r, gport s r ≠ some p
  | _ => True

/-- `KeepsGroups` can be checked along a run. -/
instance [Fintype Pid] (s : State Pid Tid Packet) : ∀ action, Decidable (KeepsGroups s action)
  | .group ports memory _ =>
    inferInstanceAs (Decidable (_ ∨ memory = false ∨
      (∃ r ∈ ports.head?, ungrouped s r = false) ∨ _ ∧ ∀ r ∈ ports, ungrouped s r = true))
  | .groupRemove g r => inferInstanceAs (Decidable (gport s r ≠ some g))
  | .close p => inferInstanceAs (Decidable (isGroup s p = true → ∀ r, gport s r ≠ some p))
  | .create _ _ _ _ | .open _ _ _ _ | .groupAdd _ _ | .write _ _ | .read _ _ _ | .resume _
  | .timeout _ | .destroy _ => isTrue trivial

/-- `port_close` unlinks a read port from its group, and leaves nothing behind of a group without
members. -/
theorem GroupInv.port_close (hinv : GroupInv s lists)
    (hguard : isGroup s p = true → ∀ r, gport s r ≠ some p) (hclose : portClose s p = some result) :
    Keeps s result.2 := by
  -- nobody waits to be told that the port is gone
  have hquiet {s' : State Pid Tid Packet} (h : Settled s') :
      (s'.waiters.waitQueueWakeAll p errObjectDestroyed).2.All (· = .running) := by
    rw [Waiters.wake_all_of_nil _ (h.quiet.list_eq_nil p)]
    exact h.quiet
  unfold portClose at hclose
  split at hclose
  · next rp hrp =>
    obtain ⟨s₁, hdetach, hclose⟩ := bind_eq_some_iff.mp hclose
    obtain ⟨links, hunlink, hclose⟩ := bind_eq_some_iff.mp hclose
    cases hclose
    obtain ⟨hsame, hsettled⟩ := SameGroups.detach (read_port_eq_some.mpr hrp) hdetach
    have hfreed (h : Settled s) := (hsettled h).bufs.release (p := p)
    have hinv₁ := hinv.of_same_groups hsame
    have hrole : role s₁ p = .member rp.gport := by
      rw [hsame.role]
      simp [role, hrp, Object.role]
    cases hgport : rp.gport with
    | none =>
      rw [hgport] at hrole hunlink
      cases hunlink
      exact ⟨⟨lists, (hinv₁.free_read hrole).of_same_groups ⟨rfl, fun _ => rfl⟩⟩,
        fun h => ⟨hfreed h, hquiet (hsettled h)⟩⟩
    | some g =>
      rw [hgport] at hrole hunlink
      obtain ⟨links', hdelete, hinv'⟩ := hinv₁.free_member hrole
      rw [unlinkMember, hdelete] at hunlink
      cases hunlink
      exact ⟨⟨_, hinv'.of_same_groups ⟨rfl, fun _ => rfl⟩⟩,
        fun h => ⟨hfreed h, hquiet (hsettled h)⟩⟩
  · next hheap =>
    have hg : role s p = .group := by simp [role, hheap, Object.role]
    have hempty : lists p = [] := by
      refine eq_nil_iff_forall_not_mem.mpr fun r hr => ?_
      have hplace := (hinv.placed.mem_iff p r).mp hr
      exact hguard ((is_group_iff s p).mpr hg) r ((gport_eq s r).trans hplace)
    rw [hinv.members_eq hg, bind_eq_bind, bind_some, hempty] at hclose
    cases hclose
    have hwaiters : SameGroups s
        { s with waiters := (s.waiters.waitQueueWakeAll p errObjectDestroyed).2 } :=
      ⟨rfl, fun _ => rfl⟩
    exact ⟨⟨lists, (hinv.of_same_groups hwaiters).free_group hg hempty⟩,
      fun h => ⟨h.bufs.release, hquiet h⟩⟩
  · next wp hwp =>
    split at hclose
    · cases hclose
      exact hinv.keeps
    · cases hclose
      refine ⟨⟨lists, hinv.of_same_groups (.store _ _ ?_)⟩,
        fun h => ⟨h.bufs.store fun buf heq => h.bufs p _ hwp buf heq, h.quiet⟩⟩
      simp [role, hwp, Object.role]
  · cases hclose
    exact hinv.keeps

/-- The calls that make, group and close ports. -/
def Action.Configures : Action Pid Tid Packet → Prop
  | .write _ _ | .read _ _ _ | .resume _ | .timeout _ => False
  | _ => True

theorem GroupInv.configure (hinv : GroupInv s lists)
    (hguard : KeepsGroups s action) (hconfigures : action.Configures)
    (hperform : perform s action = some outcome) : Keeps s outcome.2 := by
  cases action with
  | create name mode memory p =>
    obtain ⟨hfree, ⟨⟩⟩ := ite_none_left_eq_some.mp hperform
    exact hinv.port_create (role_of_free hfree)
  | «open» name ctx memory p =>
    obtain ⟨hfree, ⟨⟩⟩ := ite_none_left_eq_some.mp hperform
    exact hinv.port_open (role_of_free hfree)
  | group ports memory g =>
    obtain ⟨hfree, hperform⟩ := ite_none_left_eq_some.mp hperform
    obtain ⟨result, hgroup, rfl⟩ := map_eq_some_iff.mp hperform
    exact hinv.port_group (role_of_free hfree) hguard hgroup
  | groupAdd g r =>
    obtain ⟨result, hadd, rfl⟩ := map_eq_some_iff.mp hperform
    exact hinv.port_group_add hadd
  | groupRemove g r =>
    obtain ⟨result, hremove, rfl⟩ := map_eq_some_iff.mp hperform
    rw [returning, port_group_remove_eq hguard hremove]
    exact hinv.keeps
  | destroy w =>
    obtain ⟨result, hdestroy, rfl⟩ := map_eq_some_iff.mp hperform
    exact hinv.port_destroy hdestroy
  | close p =>
    obtain ⟨result, hclose, rfl⟩ := map_eq_some_iff.mp hperform
    exact hinv.port_close hguard hclose
  | write | read | resume | timeout => cases hconfigures

theorem GroupInv.perform (hinv : GroupInv s lists)
    (hguard : KeepsGroups s action) (hperform : perform s action = some outcome) :
    ∃ lists', GroupInv outcome.2 lists' := by
  cases action with
  | write w packets =>
    obtain ⟨result, hwrite, rfl⟩ := map_eq_some_iff.mp hperform
    exact ⟨lists, hinv.of_same_groups (.port_write hwrite)⟩
  | read t p timeout =>
    obtain ⟨hphase, hread⟩ := dite_none_right_eq_some.mp hperform
    exact ⟨lists, hinv.of_same_groups (.port_read hphase hread)⟩
  | resume t =>
    simp only [Port.perform] at hperform
    split at hperform
    · exact ⟨lists, hinv.of_same_groups (.resume_read _ hperform)⟩
    · cases hperform
  | timeout t =>
    simp only [Port.perform] at hperform
    split at hperform
    · cases hperform
      exact ⟨lists, hinv.of_same_groups ⟨rfl, fun _ => rfl⟩⟩
    · cases hperform
  | _ => exact (hinv.configure hguard trivial hperform).groups

theorem reachable_group_inv (h : Reachable KeepsGroups s) : ∃ lists, GroupInv s lists := by
  refine h.invariant_from (P := fun s => ∃ lists, GroupInv s lists) ⟨_, GroupInv.initial⟩ ?_
  intro s action s' ⟨lists, hinv⟩ hguard hstep
  obtain ⟨outcome, hperform, rfl⟩ := map_eq_some_iff.mp hstep
  exact hinv.perform hguard hperform

/-- In every run that keeps to the guard: the list of a group holds, once each, exactly the read
ports that name the group, and its links agree in both directions; a read port names a group that
is there; no read port is in two groups; and the node of a read port that names no group is in no
list. -/
theorem groups_consistent (h : Reachable KeepsGroups s) :
    (∀ g, isGroup s g = true → ∃ ports, members s g = some ports ∧
      IsList s.links (.head g) (ports.map .member) ∧ ∀ r, gport s r = some g ↔ r ∈ ports) ∧
    (∀ r g, gport s r = some g → isGroup s g = true) ∧
    (∀ g g' ports ports' r, isGroup s g = true → isGroup s g' = true →
      members s g = some ports → members s g' = some ports' → r ∈ ports → r ∈ ports' → g = g') ∧
    ∀ r, (readPort? s r).isSome = true → gport s r = none →
      s.links.prev (.member r) = none ∧ s.links.next (.member r) = none := by
  obtain ⟨lists, hinv⟩ := reachable_group_inv h
  refine ⟨?_, ?_, ?_, ?_⟩
  · intro g hg
    rw [is_group_iff] at hg
    refine ⟨lists g, hinv.members_eq hg, hinv.is_list g hg, fun r => ?_⟩
    rw [gport_eq, hinv.placed.mem_iff]
  · intro r g hgport
    rw [gport_eq] at hgport
    rw [is_group_iff]
    exact hinv.group r g (Role.eq_member hgport)
  · intro g g' ports ports' r hg hg' hports hports' hr hr'
    rw [is_group_iff] at hg hg'
    rw [hinv.members_eq hg] at hports
    rw [hinv.members_eq hg'] at hports'
    cases hports
    cases hports'
    exact hinv.placed.unique hr hr'
  · intro r hread hgport
    obtain ⟨gport, hrole⟩ := (read_port_is_some_iff s r).mp hread
    rw [gport_eq, hrole] at hgport
    exact (hinv.unlinked r (hrole.trans (congrArg _ hgport))).2

/-- Ports 1 and 2 are opened on port 0 and put into group 3, and port 1 is closed. -/
theorem groups_consistent_closed :
    ∃ s : State (Fin 4) Unit Unit,
      (Reachable KeepsGroups s ∧ isGroup s 3 = true ∧ gport s 2 = some 3) ∧
      ∃ ports, members s 3 = some ports ∧ 2 ∈ ports := by
  obtain ⟨s, hreach, hgroup, hgport⟩ := exists_reachable step KeepsGroups initial
    (P := fun s : State (Fin 4) Unit Unit => isGroup s 3 = true ∧ gport s 2 = some 3)
    [.create [112] 0#32 true 0, .open [112] 0 true 1, .open [112] 0 true 2,
      .group [1, 2] true 3, .close 1]
    (by decide) (by decide)
  obtain ⟨ports, hmembers, _, hmem⟩ := (groups_consistent hreach).1 3 hgroup
  exact ⟨s, ⟨hreach, hgroup, hgport⟩, ports, hmembers, (hmem 2).mp hgport⟩

/-- Each of the three leaves pointer and list apart. A port that was removed from its group still
names it, and closing it follows the null pointers of its node. A `port_group` that fails at its
second port, and a group that is closed, leave the node of the first port linked to a group that
is gone. -/
theorem groups_inconsistent :
    (∃ s : State (Fin 4) Unit Unit, Reachable Always s ∧ isGroup s 3 = true ∧
      gport s 1 = some 3 ∧ members s 3 = some [] ∧ step s (.close 1) = none) ∧
    (∃ s : State (Fin 4) Unit Unit, Reachable Always s ∧ isGroup s 3 = false ∧
      gport s 1 = none ∧ s.links.next (.member 1) = some (.head 3)) ∧
    ∃ s : State (Fin 4) Unit Unit, Reachable Always s ∧ isGroup s 3 = false ∧
      gport s 2 = none ∧ s.links.next (.member 2) = some (.head 3) := by
  refine ⟨?_, ?_, ?_⟩
  · exact exists_reachable step Always initial
      [.create [112] 0#32 true 0, .open [112] 0 true 1, .group [1] true 3, .groupRemove 3 1]
      (admits_always _ _) (by decide)
  · exact exists_reachable step Always initial
      [.create [112] 0#32 true 0, .open [112] 0 true 1, .group [1, 0] true 3]
      (admits_always _ _) (by decide)
  · exact exists_reachable step Always initial
      [.create [112] 0#32 true 0, .open [112] 0 true 2, .group [2] true 3, .close 3]
      (admits_always _ _) (by decide)

end NusaKernel.Port

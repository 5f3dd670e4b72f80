import Mathlib.Data.List.TakeWhile
import Kv.Lib.LineFraming
import Kv.Router.Router

namespace kv

def COMMA : UInt8 := 0x2C
def COLON : UInt8 := 0x3A

/-- `strtol` in base 10: blanks, a sign, and the digits before anything else. A
    number outside of a `long` is replaced by the nearest one inside. -/
def strtol (s : Bytes) : Int :=
  let clamp (v : Int) : Int := max (-2 ^ 63) (min (2 ^ 63 - 1) v)
  match s.dropWhile isspace with
  | 0x2D :: s => clamp (-(decimal (s.takeWhile isdigit)))
  | 0x2B :: s => clamp (decimal (s.takeWhile isdigit))
  | s => clamp (decimal (s.takeWhile isdigit))

/-- `std::atoi` of glibc, which cuts the result of `strtol` to an `int`. -/
def atoi (s : Bytes) : Int := (strtol s).bmod (2 ^ 32)

/-- `std::getline` on what is left of a string stream: the text up to the next
    delimiter, and what follows it. It fails at the end of the stream. -/
def getline (delim : UInt8) (ss : Bytes) : Option (Bytes × Bytes) :=
  if ss.isEmpty then none else some (ss.takeWhile (· != delim), (ss.dropWhile (· != delim)).drop 1)

/-- `std::string::rfind` of a character. -/
def rfind (s : Bytes) (c : UInt8) : Option Nat := (s.reverse.idxOf? c).map fun i => s.length - 1 - i

/-- The body of the loop of `parse_nodes`. -/
def parse_node (item : Bytes) : Except Bytes NodeAddress :=
  match rfind item COLON with
  | none => .error (ascii "invalid node address (expected host:port): " ++ item)
  | some colon => .ok { host := item.take colon, port := UInt16.ofInt (atoi (item.drop (colon + 1))) }

theorem getline_length_lt {delim : UInt8} {ss item rest : Bytes} (hline : getline delim ss = some (item, rest)) :
    rest.length < ss.length := by
  cases ss with
  | nil => simp [getline] at hline
  | cons c ss =>
    simp only [getline, List.isEmpty_cons, Bool.false_eq_true, if_false, Option.some.injEq, Prod.mk.injEq] at hline
    have hdrop := (List.dropWhile_suffix (l := c :: ss) (· != delim)).length_le
    rw [← hline.2, List.length_drop]
    simp only [List.length_cons] at hdrop ⊢
    omega

def parse_nodes_loop (ss : Bytes) (nodes : List NodeAddress) : Except Bytes (List NodeAddress) :=
  match _hline : getline COMMA ss with
  | none => .ok nodes
  | some (item, rest) =>
    match parse_node item with
    | .error what => .error what
    | .ok addr => parse_nodes_loop rest (nodes ++ [addr])
termination_by ss.length
decreasing_by exact getline_length_lt _hline

def parse_nodes (list : Bytes) : Except Bytes (List NodeAddress) := parse_nodes_loop list []

/-- The items of a comma-separated list: the pieces between the commas. An empty
    piece after the last comma is none. -/
def node_items (list : Bytes) : List Bytes :=
  if (list.splitOn COMMA).getLast? = some [] then (list.splitOn COMMA).dropLast else list.splitOn COMMA

theorem getline_last {ss : Bytes} (hne : ss ≠ []) (hcomma : COMMA ∉ ss) : getline COMMA ss = some (ss, []) := by
  have hall : ∀ c ∈ ss, (c != COMMA) = true := fun c hc => by simpa using fun h : c = COMMA => hcomma (h ▸ hc)
  rw [getline, if_neg (by simpa using hne), List.takeWhile_eq_self_iff.mpr hall, List.dropWhile_eq_nil_iff.mpr hall]
  rfl

theorem getline_comma {item : Bytes} (rest : Bytes) (hcomma : COMMA ∉ item) :
    getline COMMA (item ++ COMMA :: rest) = some (item, rest) := by
  have hall : ∀ c ∈ item, (c != COMMA) = true := fun c hc => by simpa using fun h : c = COMMA => hcomma (h ▸ hc)
  rw [getline, if_neg (by simp), List.takeWhile_append_of_pos hall, List.dropWhile_append_of_pos hall]
  simp

theorem node_items_nil : node_items [] = [] := by decide

theorem node_items_last {item : Bytes} (hne : item ≠ []) (hcomma : COMMA ∉ item) : node_items item = [item] := by
  simp [node_items, List.splitOn_eq_singleton hcomma, hne]

theorem node_items_comma {item : Bytes} (rest : Bytes) (hcomma : COMMA ∉ item) :
    node_items (item ++ COMMA :: rest) = item :: node_items rest := by
  have hne := List.splitOn_ne_nil COMMA rest
  rw [node_items, node_items, List.splitOn_append_cons_self_of_not_mem hcomma, List.getLast?_cons_of_ne_nil hne,
    List.dropLast_cons_of_ne_nil hne]
  split <;> rfl

/-- A line of the stream is the next item of the list. -/
theorem getline_cases (ss : Bytes) :
    (getline COMMA ss = none ∧ node_items ss = []) ∨
      ∃ item rest, getline COMMA ss = some (item, rest) ∧ node_items ss = item :: node_items rest := by
  by_cases hcomma : COMMA ∈ ss
  · obtain ⟨item, rest, rfl, hitem⟩ := List.eq_append_cons_of_mem hcomma
    exact .inr ⟨item, rest, getline_comma rest hitem, node_items_comma rest hitem⟩
  · cases ss with
    | nil => exact .inl ⟨rfl, node_items_nil⟩
    | cons c ss =>
      refine .inr ⟨c :: ss, [], getline_last (by simp) hcomma, ?_⟩
      rw [node_items_last (by simp) hcomma, node_items_nil]

/-- The loop takes the items one by one, and stops at the first that is no
    address. -/
theorem parse_nodes_loop_eq (ss : Bytes) (nodes : List NodeAddress) :
    parse_nodes_loop ss nodes = ((node_items ss).mapM parse_node).map (nodes ++ ·) := by
  induction hlen : ss.length using Nat.strong_induction_on generalizing ss nodes with
  | _ n ih =>
    rcases getline_cases ss with ⟨hline, hitems⟩ | ⟨item, rest, hline, hitems⟩
    · rw [parse_nodes_loop, hline, hitems]
      simp [Except.map, pure, Except.pure]
    · have hrest := ih rest.length (hlen ▸ getline_length_lt hline) rest
      rw [parse_nodes_loop, hline, hitems, List.mapM_cons]
      dsimp only
      cases parse_node item with
      | error what => rfl
      | ok addr =>
        dsimp only
        rw [hrest (nodes ++ [addr]) rfl]
        cases (node_items rest).mapM parse_node with
        | error what => rfl
        | ok addrs => simp [Except.map, bind, Except.bind, pure, Except.pure]

theorem parse_nodes_eq (list : Bytes) : parse_nodes list = (node_items list).mapM parse_node := by
  rw [parse_nodes, parse_nodes_loop_eq]
  cases (node_items list).mapM parse_node <;> rfl

theorem rfind_eq_none {s : Bytes} {c : UInt8} (hc : c ∉ s) : rfind s c = none := by
  rw [rfind, List.idxOf?_eq_none_iff.mpr (by simpa using hc)]
  rfl

theorem rfind_append (host : Bytes) {port : Bytes} {c : UInt8} (hc : c ∉ port) :
    rfind (host ++ c :: port) c = some host.length := by
  have hlast : (host ++ c :: port).reverse = port.reverse ++ c :: host.reverse := by simp
  rw [rfind, hlast, Incremental.idxOf?_append_cons _ (by simpa using hc), Option.map_some, Option.some.injEq]
  simp only [List.length_append, List.length_cons, List.length_reverse]
  omega

/-- The last occurrence of a byte. -/
theorem exists_eq_append_cons_last {s : Bytes} {c : UInt8} (hc : c ∈ s) :
    ∃ host port, s = host ++ c :: port ∧ c ∉ port := by
  obtain ⟨port, host, hsplit, hport⟩ := List.eq_append_cons_of_mem (List.mem_reverse.mpr hc)
  refine ⟨host.reverse, port.reverse, ?_, by simpa using hport⟩
  rw [← List.reverse_reverse s, hsplit]
  simp

theorem parse_node_colon (host : Bytes) {port : Bytes} (hport : COLON ∉ port) :
    parse_node (host ++ COLON :: port) = .ok ⟨host, UInt16.ofInt (atoi port)⟩ := by
  rw [parse_node, rfind_append host hport]
  simp

theorem parse_node_no_colon {item : Bytes} (hitem : COLON ∉ item) : ∃ what, parse_node item = .error what := by
  rw [parse_node, rfind_eq_none hitem]
  exact ⟨_, rfl⟩

/-- The decimal numbers of a `uint16_t`, as they are written. -/
def IsPort (port : Bytes) : Prop := port ≠ [] ∧ port.all isdigit ∧ decimal port ≤ 65535

instance (port : Bytes) : Decidable (IsPort port) := inferInstanceAs (Decidable (_ ∧ _))

/-- A number starts with its first digit. -/
theorem strtol_digits {s : Bytes} (hne : s ≠ []) (hdigits : s.all isdigit) :
    strtol s = max (-2 ^ 63) (min (2 ^ 63 - 1) (decimal s : Int)) := by
  have htake : s.takeWhile isdigit = s := List.takeWhile_eq_self_iff.mpr (List.all_eq_true.mp hdigits)
  obtain ⟨c, s, rfl⟩ := List.exists_cons_of_ne_nil hne
  have hdigit : 48 ≤ c.toNat := by
    have hc := (isdigit_iff c).mp (List.all_eq_true.mp hdigits c List.mem_cons_self)
    exact UInt8.le_iff_toNat_le.mp hc.1
  have hspace : isspace c = false := by
    have hblank : c ≠ 0x20 := by
      rintro rfl
      exact absurd hdigit (by decide)
    have hcontrol : ¬ c ≤ 0x0D := fun hle => absurd (hdigit.trans (UInt8.le_iff_toNat_le.mp hle)) (by decide)
    simp [isspace, hblank, hcontrol]
  rw [strtol, List.dropWhile_cons_of_neg (by simp [hspace])]
  split
  · rename_i heq
    obtain ⟨rfl, -⟩ := List.cons.inj heq
    exact absurd hdigit (by decide)
  · rename_i heq
    obtain ⟨rfl, -⟩ := List.cons.inj heq
    exact absurd hdigit (by decide)
  · rw [htake]

theorem atoi_of_isPort {port : Bytes} (hport : IsPort port) : atoi port = decimal port := by
  have hmax := hport.2.2
  rw [atoi, strtol_digits hport.1 hport.2.1, Int.bmod_def]
  omega

/-- An item and the address that it names: the host before the last colon, and
    the port as the decimal number after it. -/
def Names (item : Bytes) (addr : NodeAddress) : Prop :=
  ∃ port, item = addr.host ++ COLON :: port ∧ COLON ∉ port ∧ IsPort port ∧ decimal port = addr.port.toNat

theorem COLON_not_mem_of_digits {port : Bytes} (hdigits : port.all isdigit) : COLON ∉ port :=
  fun hmem => absurd (List.all_eq_true.mp hdigits COLON hmem) (by decide)

theorem parse_node_isPort (host : Bytes) {port : Bytes} (hport : IsPort port) :
    parse_node (host ++ COLON :: port) = .ok ⟨host, UInt16.ofNat (decimal port)⟩ := by
  rw [parse_node_colon host (COLON_not_mem_of_digits hport.2.1), atoi_of_isPort hport, UInt16.ofInt]
  have hmod : ((decimal port : Int) % 2 ^ 16).toNat = decimal port := by
    have hmax := hport.2.2
    omega
  rw [hmod]

/-- An item splits at its last colon in one way only. -/
theorem last_colon_unique {host port host' port' : Bytes} (hport : COLON ∉ port) (hport' : COLON ∉ port')
    (heq : host ++ COLON :: port = host' ++ COLON :: port') : port = port' := by
  have hlength : host.length = host'.length := by
    have hfound := rfind_append host hport
    rw [heq, rfind_append host' hport', Option.some.injEq] at hfound
    exact hfound.symm
  exact (List.cons.inj (List.append_inj heq hlength).2).2

theorem Names.isPort {host port : Bytes} {addr : NodeAddress} (hnames : Names (host ++ COLON :: port) addr)
    (hcolon : COLON ∉ port) : IsPort port := by
  obtain ⟨port', hitem, hcolon', hport', -⟩ := hnames
  rwa [last_colon_unique hcolon hcolon' hitem]

/-- The port of an item is taken as it is written, exactly if it is a decimal
    number in range. -/
theorem names_iff_isPort (host : Bytes) {port : Bytes} (hcolon : COLON ∉ port) {addr : NodeAddress}
    (hparse : parse_node (host ++ COLON :: port) = .ok addr) : Names (host ++ COLON :: port) addr ↔ IsPort port := by
  refine ⟨fun hnames => hnames.isPort hcolon, fun hport => ?_⟩
  rw [parse_node_isPort host hport, Except.ok.injEq] at hparse
  subst hparse
  exact ⟨port, rfl, hcolon, hport, (UInt16.toNat_ofNat_of_lt' (Nat.lt_of_le_of_lt hport.2.2 (by decide))).symm⟩

/-- An item whose port is a decimal number in range. -/
def ItemOk (item : Bytes) : Prop := ∃ host port, item = host ++ COLON :: port ∧ COLON ∉ port ∧ IsPort port

theorem parse_node_cases (item : Bytes) :
    (COLON ∉ item ∧ ∃ what, parse_node item = .error what) ∨
      (COLON ∈ item ∧ ∃ addr, parse_node item = .ok addr ∧ (Names item addr ↔ ItemOk item)) := by
  by_cases hitem : COLON ∈ item
  · obtain ⟨host, port, rfl, hport⟩ := exists_eq_append_cons_last hitem
    refine .inr ⟨hitem, _, parse_node_colon host hport, ?_⟩
    rw [names_iff_isPort host hport (parse_node_colon host hport)]
    constructor
    · exact fun hok => ⟨host, port, rfl, hport, hok⟩
    · rintro ⟨host', port', heq, hport', hok⟩
      rwa [last_colon_unique hport hport' heq]
  · exact .inl ⟨hitem, parse_node_no_colon hitem⟩

/-- A list throws exactly if some item has no colon. Otherwise every item gives
    an address. -/
theorem mapM_parse_node_cases (items : List Bytes) :
    ((∃ item ∈ items, COLON ∉ item) ∧ ∃ what, items.mapM parse_node = .error what) ∨
      ((∀ item ∈ items, COLON ∈ item) ∧ ∃ addrs, items.mapM parse_node = .ok addrs ∧
        (List.Forall₂ Names items addrs ↔ ∀ item ∈ items, ItemOk item)) := by
  induction items with
  | nil => exact .inr ⟨by simp, [], rfl, by simp⟩
  | cons item items ih =>
    rw [List.mapM_cons]
    rcases parse_node_cases item with ⟨hcolon, what, hparse⟩ | ⟨hcolon, addr, hparse, hnames⟩
    · rw [hparse]
      exact .inl ⟨⟨item, List.mem_cons_self, hcolon⟩, what, rfl⟩
    · rw [hparse]
      rcases ih with ⟨⟨bad, hbad, hnone⟩, what, hrest⟩ | ⟨hall, addrs, hrest, hiff⟩
      · rw [hrest]
        exact .inl ⟨⟨bad, List.mem_cons_of_mem _ hbad, hnone⟩, what, rfl⟩
      · rw [hrest]
        refine .inr ⟨by simpa using ⟨hcolon, hall⟩, addr :: addrs, rfl, ?_⟩
        rw [List.forall₂_cons, hnames, hiff]
        simp

theorem node_items_intercalate {items : List Bytes} (hitems : ∀ item ∈ items, item ≠ [] ∧ COMMA ∉ item) :
    node_items ([COMMA].intercalate items) = items := by
  induction items with
  | nil => rfl
  | cons item items ih =>
    obtain ⟨hne, hcomma⟩ := hitems item List.mem_cons_self
    cases items with
    | nil => rw [List.intercalate_singleton, node_items_last hne hcomma]
    | cons next items =>
      rw [List.intercalate_cons_cons, List.append_assoc, List.singleton_append, node_items_comma _ hcomma,
        ih fun item' hitem' => hitems item' (List.mem_cons_of_mem _ hitem')]

theorem parse_node_id (addr : NodeAddress) : parse_node addr.id = .ok addr := by
  have hport : IsPort (to_string addr.port.toNat) := by
    refine ⟨to_string_ne_nil _, List.all_eq_true.mpr fun c => isdigit_of_mem_to_string, ?_⟩
    have hmax := addr.port.toNat_lt
    rw [decimal_to_string]
    omega
  have hid : addr.id = addr.host ++ COLON :: to_string addr.port.toNat := by simp [NodeAddress.id]; rfl
  rw [hid, parse_node_isPort addr.host hport, decimal_to_string]
  simp

theorem mapM_parse_node_id (addrs : List NodeAddress) : (addrs.map NodeAddress.id).mapM parse_node = .ok addrs := by
  induction addrs with
  | nil => rfl
  | cons addr addrs ih =>
    rw [List.map_cons, List.mapM_cons, parse_node_id, ih]
    rfl

/-- `parse_nodes` throws, or names the nodes it was given item by item, exactly
    for the lists in which some item has no colon or every item has a decimal
    number in range after its last one. It always reads back the ids of its own
    results. -/
theorem parse_nodes_names_iff (list : Bytes) (addrs : List NodeAddress) :
    (((∃ what, parse_nodes list = .error what) ∨
        ∃ named, parse_nodes list = .ok named ∧ List.Forall₂ Names (node_items list) named) ↔
      ((∃ item ∈ node_items list, COLON ∉ item) ∨
        ∀ item ∈ node_items list, ∃ host port, item = host ++ COLON :: port ∧ COLON ∉ port ∧ IsPort port)) ∧
    ((∀ addr ∈ addrs, COMMA ∉ addr.host) →
      parse_nodes ([COMMA].intercalate (addrs.map NodeAddress.id)) = .ok addrs) := by
  constructor
  · rw [parse_nodes_eq]
    rcases mapM_parse_node_cases (node_items list) with ⟨hbad, what, herror⟩ | ⟨hall, named, hok, hnames⟩
    · exact iff_of_true (.inl ⟨what, herror⟩) (.inl hbad)
    · rw [hok]
      constructor
      · rintro (⟨what, herror⟩ | ⟨named', heq, hforall⟩)
        · simp at herror
        · obtain rfl := Except.ok.inj heq
          exact .inr (hnames.mp hforall)
      · rintro (⟨item, hitem, hcolon⟩ | hitems)
        · exact absurd (hall item hitem) hcolon
        · exact .inr ⟨named, rfl, hnames.mpr hitems⟩
  · intro hhosts
    have hitems : ∀ item ∈ addrs.map NodeAddress.id, item ≠ [] ∧ COMMA ∉ item := by
      intro item hitem
      obtain ⟨addr, haddr, rfl⟩ := List.mem_map.mp hitem
      simp only [NodeAddress.id, ne_eq, List.append_eq_nil_iff, List.mem_append, not_or]
      refine ⟨fun hnil => to_string_ne_nil _ hnil.2, ⟨hhosts addr haddr, by decide⟩, fun hmem => ?_⟩
      exact absurd (isdigit_of_mem_to_string hmem) (by decide)
    rw [parse_nodes_eq, node_items_intercalate hitems, mapM_parse_node_id]

/-- Two nodes, one of them with a colon in its host. -/
theorem parse_nodes_names_two :
    let addrs : List NodeAddress := [⟨ascii "localhost", 7001⟩, ⟨ascii "::1", 65535⟩]
    parse_nodes ([COMMA].intercalate (addrs.map NodeAddress.id)) = .ok addrs := by
  intro addrs
  exact (parse_nodes_names_iff [] addrs).2 (by decide)

/-- `h:70000` is routed to port 4464, `h:http` to port 0, and `h:-1` to port
    65535. None of the three is rejected, and none is named by the result. -/
theorem parse_nodes_accepts_any_port :
    parse_nodes (ascii "h:70000,h:http,h:-1") = .ok [⟨ascii "h", 4464⟩, ⟨ascii "h", 0⟩, ⟨ascii "h", 65535⟩] ∧
      ∀ item ∈ node_items (ascii "h:70000,h:http,h:-1"), ∀ addr, ¬ Names item addr := by
  constructor
  · rw [parse_nodes_eq]
    decide
  · have hitems : node_items (ascii "h:70000,h:http,h:-1") =
        [ascii "h" ++ COLON :: ascii "70000", ascii "h" ++ COLON :: ascii "http",
          ascii "h" ++ COLON :: ascii "-1"] := by
      decide
    rw [hitems]
    intro item hitem addr hnames
    simp only [List.mem_cons, List.not_mem_nil, or_false] at hitem
    rcases hitem with rfl | rfl | rfl
    · exact absurd (hnames.isPort (by decide)) (by decide)
    · exact absurd (hnames.isPort (by decide)) (by decide)
    · exact absurd (hnames.isPort (by decide)) (by decide)

end kv

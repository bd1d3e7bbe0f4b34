/-
Addresses: `ngx_inet_addr`, `ngx_sock_ntop` and `ngx_parse_url` of
nginx/src/core/ngx_inet.c, and the decimal output of `ngx_sprintf_num` of
nginx/src/core/ngx_string.c.

An IPv4 address is its value in host order. Unix sockets, IPv6 addresses and
names that have to be looked up are left to a resolver.
-/

import AutoBurst.Nginx.Numbers

namespace AutoBurst.Nginx

/-! ### Writing numbers -/

/-- The `do` loop, from the last digit to the first. -/
def sprintfDigits : Nat → Nat → List Char → List Char
  | 0, _value, written => written
  | room + 1, value, written =>
      if value / 10 = 0 then Nat.digitChar (value % 10) :: written
      else sprintfDigits room (value / 10) (Nat.digitChar (value % 10) :: written)

/-- A buffer of NGX_INT64_LEN digits. -/
def sprintfNum (value : Nat) : List Char := sprintfDigits 20 value []

private theorem sprintfDigits_eq {room value : Nat} (fits : value < 10 ^ (room + 1))
    (written : List Char) :
    sprintfDigits (room + 1) value written = Nat.toDigits 10 value ++ written := by
  induction room generalizing value written with
  | zero =>
      have single : value / 10 = 0 := by omega
      rw [sprintfDigits, if_pos single, Nat.toDigits_of_lt_base (by omega),
        Nat.mod_eq_of_lt (by omega)]
      rfl
  | succ room ih =>
      rw [sprintfDigits]
      by_cases single : value / 10 = 0
      · rw [if_pos single, Nat.toDigits_of_lt_base (by omega), Nat.mod_eq_of_lt (by omega)]
        rfl
      · have smaller : value / 10 < 10 ^ (room + 1) := by
          rw [Nat.pow_succ] at fits
          omega
        have digits : Nat.toDigits 10 value =
            Nat.toDigits 10 (value / 10) ++ [Nat.digitChar (value % 10)] :=
          Nat.toDigits_of_base_le (by decide) (by omega)
        rw [if_neg single, ih smaller, digits, List.append_assoc]
        rfl

/-- Sixty-four bits fit into the buffer. -/
theorem sprintfNum_eq {value : Nat} (fits : value < 2 ^ 64) :
    sprintfNum value = Nat.toDigits 10 value := by
  have wide : value < 10 ^ 20 := by omega
  exact (sprintfDigits_eq wide []).trans (List.append_nil _)

private theorem length_sprintfDigits (room value : Nat) (written : List Char) :
    (sprintfDigits room value written).length ≤ room + written.length := by
  induction room generalizing value written with
  | zero => exact Nat.le_of_eq (Nat.zero_add _).symm
  | succ room ih =>
      rw [sprintfDigits]
      split
      · rw [List.length_cons]
        omega
      · have longer := ih (value / 10) (Nat.digitChar (value % 10) :: written)
        rw [List.length_cons] at longer
        omega

theorem length_sprintfNum (value : Nat) : (sprintfNum value).length ≤ 20 :=
  length_sprintfDigits 20 value []

/-! ### IPv4 addresses -/

def inaddrNone : Nat := 4294967295

structure InetScan where
  addr : Nat
  octet : Nat
  dots : Nat
deriving DecidableEq, Repr

def inetAddrFrom (scan : InetScan) : List Char → Nat
  | [] => if scan.dots = 3 then (scan.addr * 256 + scan.octet) % 2 ^ 32 else inaddrNone
  | ch :: rest =>
      if ch.isDigit then
        if 255 < scan.octet * 10 + digitOf ch then inaddrNone
        else inetAddrFrom { scan with octet := scan.octet * 10 + digitOf ch } rest
      else if ch = '.' then
        inetAddrFrom
          { addr := (scan.addr * 256 + scan.octet) % 2 ^ 32, octet := 0, dots := scan.dots + 1 }
          rest
      else inaddrNone

def inetAddr (text : List Char) : Nat := inetAddrFrom { addr := 0, octet := 0, dots := 0 } text

def dotted (addr : Nat) : List Char :=
  sprintfNum (addr / 2 ^ 24 % 256) ++ '.' :: (sprintfNum (addr / 2 ^ 16 % 256) ++
    '.' :: (sprintfNum (addr / 2 ^ 8 % 256) ++ '.' :: sprintfNum (addr % 256)))

/-- `"%ud.%ud.%ud.%ud:%d"` -/
def sockNtop (addr port : Nat) : List Char := dotted addr ++ ':' :: sprintfNum port

private theorem inetAddrFrom_digits {line : List Char} (digits : ∀ ch ∈ line, ch.isDigit = true)
    {scan : InetScan} (small : Nat.ofDigitChars 10 line scan.octet ≤ 255) (rest : List Char) :
    inetAddrFrom scan (line ++ rest) =
      inetAddrFrom { scan with octet := Nat.ofDigitChars 10 line scan.octet } rest := by
  induction line generalizing scan with
  | nil => rw [List.nil_append, Nat.ofDigitChars_nil]
  | cons ch others ih =>
      obtain ⟨digit, later⟩ := List.forall_mem_cons.mp digits
      have next : 10 * scan.octet + (ch.toNat - '0'.toNat) = scan.octet * 10 + digitOf ch := by
        rw [Nat.mul_comm]
        rfl
      rw [Nat.ofDigitChars_cons, next] at small ⊢
      have grown := le_ofDigitChars (scan.octet * 10 + digitOf ch) others
      rw [List.cons_append, inetAddrFrom, if_pos digit, if_neg (by omega), ih later small]

private theorem inetAddrFrom_octet {byte : Nat} (small : byte < 256) (addr dots : Nat)
    (rest : List Char) :
    inetAddrFrom { addr := addr, octet := 0, dots := dots } (sprintfNum byte ++ rest) =
      inetAddrFrom { addr := addr, octet := byte, dots := dots } rest := by
  have value : Nat.ofDigitChars 10 (Nat.toDigits 10 byte) 0 = byte :=
    Nat.ofDigitChars_ten_toDigits
  rw [sprintfNum_eq (by omega), inetAddrFrom_digits (Decimal.isDigit_of_toDigits byte)]
  · rw [value]
  · rw [value]
    omega

private theorem inetAddrFrom_dot (scan : InetScan) (rest : List Char) :
    inetAddrFrom scan ('.' :: rest) =
      inetAddrFrom
        { addr := (scan.addr * 256 + scan.octet) % 2 ^ 32, octet := 0, dots := scan.dots + 1 }
        rest := by
  rw [inetAddrFrom, if_neg (by decide), if_pos rfl]

/-- Reading what was written gives the address back. -/
theorem inetAddr_dotted {addr : Nat} (fits : addr < 2 ^ 32) : inetAddr (dotted addr) = addr := by
  have byte : ∀ value : Nat, value % 256 < 256 := fun value => Nat.mod_lt _ (by decide)
  unfold inetAddr dotted
  rw [inetAddrFrom_octet (byte _), inetAddrFrom_dot, inetAddrFrom_octet (byte _),
    inetAddrFrom_dot, inetAddrFrom_octet (byte _), inetAddrFrom_dot]
  have last := inetAddrFrom_octet (byte addr)
  rw [← List.append_nil (sprintfNum (addr % 256)), last, inetAddrFrom, if_pos rfl]
  dsimp only
  omega

/-! ### Urls of servers -/

/-- What is not computed here: the other two forms of an url, and the addresses
of a name with a port. An error is its text. -/
structure Resolver where
  parseUnixDomainUrl : List Char → Except String (List String)
  parseInet6Url : List Char → Except String (List String)
  inetResolveHost : List Char → Nat → Except String (List String)

def hostAddrs (resolver : Resolver) (host : List Char) (port : Nat) :
    Except String (List String) :=
  if host.isEmpty then .error "no host"
  else if inetAddr host ≠ inaddrNone then .ok [String.ofList (sockNtop (inetAddr host) port)]
  else resolver.inetResolveHost host port

/-- `ngx_parse_inet_url` for an url that is not listened on and has no uri part. -/
def parseInetUrl (resolver : Resolver) (url : List Char) (defaultPort : Nat) :
    Except String (List String) :=
  if url.contains '/' || url.contains '?' then .error "invalid host"
  else
    match url.dropWhile (· != ':') with
    | [] => hostAddrs resolver url defaultPort
    | _colon :: port =>
        match atoi port with
        | none => .error "invalid port"
        | some number =>
            if number < 1 ∨ 65535 < number then .error "invalid port"
            else hostAddrs resolver (url.takeWhile (· != ':')) number

def parseUrl (resolver : Resolver) (url : List Char) (defaultPort : Nat) :
    Except String (List String) :=
  if (url.take 5).map Char.toLower = "unix:".toList then resolver.parseUnixDomainUrl url
  else if url.head? = some '[' then resolver.parseInet6Url url
  else parseInetUrl resolver url defaultPort

theorem dotted_chars {addr : Nat} {ch : Char} (member : ch ∈ dotted addr) :
    ch.isDigit = true ∨ ch = '.' := by
  have digit : ∀ value : Nat, ch ∈ sprintfNum (value % 256) → ch.isDigit = true := by
    intro value listed
    have small : value % 256 < 256 := Nat.mod_lt _ (by decide)
    rw [sprintfNum_eq (by omega)] at listed
    exact Decimal.isDigit_of_toDigits _ ch listed
  unfold dotted at member
  simp only [List.mem_append, List.mem_cons] at member
  rcases member with first | dot | second | dot | third | dot | fourth
  · exact .inl (digit _ first)
  · exact .inr dot
  · exact .inl (digit _ second)
  · exact .inr dot
  · exact .inl (digit _ third)
  · exact .inr dot
  · exact .inl (digit _ fourth)

private theorem dotted_head (addr : Nat) :
    ∃ ch rest, dotted addr = ch :: rest ∧ ch.isDigit = true := by
  have small : addr / 2 ^ 24 % 256 < 256 := Nat.mod_lt _ (by decide)
  cases chars : Nat.toDigits 10 (addr / 2 ^ 24 % 256) with
  | nil => exact absurd chars Nat.toDigits_ne_nil
  | cons ch rest =>
      unfold dotted
      rw [sprintfNum_eq (by omega), chars, List.cons_append]
      exact ⟨ch, _, rfl, Decimal.isDigit_of_toDigits _ ch (chars ▸ List.mem_cons_self)⟩

private theorem toLower_digit {ch : Char} (digit : ch.isDigit = true) : ch.toLower = ch := by
  unfold Char.toLower
  rw [dif_neg]
  intro upper
  have below : ch.val ≤ '9'.val := of_decide_eq_true (Bool.and_eq_true_iff.mp digit).2
  exact absurd (UInt32.le_trans upper.1 below) (by decide)

private theorem ne_of_digit_or_dot {ch other : Char} (here : ch.isDigit = true ∨ ch = '.')
    (noDigit : other.isDigit = false) (noDot : other ≠ '.') : ch ≠ other := by
  rintro rfl
  rcases here with digit | dot
  · rw [digit] at noDigit
    cases noDigit
  · exact noDot dot

private theorem takeWhile_dotted (addr : Nat) (rest : List Char) :
    (dotted addr ++ ':' :: rest).takeWhile (· != ':') = dotted addr ∧
      (dotted addr ++ ':' :: rest).dropWhile (· != ':') = ':' :: rest := by
  have all : ∀ ch ∈ dotted addr, (ch != ':') = true := fun ch member =>
    bne_iff_ne.mpr (ne_of_digit_or_dot (dotted_chars member) (by decide) (by decide))
  constructor
  · rw [List.takeWhile_append_of_pos all, List.takeWhile_cons_of_neg (by decide), List.append_nil]
  · rw [List.dropWhile_append_of_pos all, List.dropWhile_cons_of_neg (by decide)]

theorem sockNtop_chars {addr port : Nat} (small : port ≤ 65535) :
    ∀ ch ∈ sockNtop addr port, ch.isDigit = true ∨ ch = '.' ∨ ch = ':' := by
  intro ch member
  unfold sockNtop at member
  rw [List.mem_append, List.mem_cons, sprintfNum_eq (by omega)] at member
  rcases member with host | colon | digit
  · exact (dotted_chars host).imp_right Or.inl
  · exact .inr (.inr colon)
  · exact .inl (Decimal.isDigit_of_toDigits _ ch digit)

theorem sockNtop_head (addr port : Nat) :
    ∃ ch rest, sockNtop addr port = ch :: rest ∧ ch.isDigit = true := by
  obtain ⟨ch, rest, begins, digit⟩ := dotted_head addr
  exact ⟨ch, rest ++ ':' :: sprintfNum port, by rw [sockNtop, begins, List.cons_append], digit⟩

theorem length_sockNtop (addr port : Nat) : (sockNtop addr port).length ≤ 104 := by
  have first := length_sprintfNum (addr / 2 ^ 24 % 256)
  have second := length_sprintfNum (addr / 2 ^ 16 % 256)
  have third := length_sprintfNum (addr / 2 ^ 8 % 256)
  have fourth := length_sprintfNum (addr % 256)
  have last := length_sprintfNum port
  unfold sockNtop dotted
  simp only [List.length_append, List.length_cons]
  omega

/-- An address and port as they are written are read as that one address, under
the same name. -/
theorem parseUrl_sockNtop (resolver : Resolver) {addr port : Nat} (fits : addr < inaddrNone)
    (positive : 1 ≤ port) (small : port ≤ 65535) (defaultPort : Nat) :
    parseUrl resolver (sockNtop addr port) defaultPort =
      .ok [String.ofList (sockNtop addr port)] := by
  have absent : ∀ other : Char, other.isDigit = false → other ≠ '.' → other ≠ ':' →
      (sockNtop addr port).contains other = false := by
    intro other noDigit noDot noColon
    rw [List.contains_eq_mem, decide_eq_false_iff_not]
    intro member
    rcases sockNtop_chars small other member with digit | dot | colon
    · rw [digit] at noDigit
      cases noDigit
    · exact noDot dot
    · exact noColon colon
  obtain ⟨first, rest, begins, digit⟩ := dotted_head addr
  have read : inetAddr (dotted addr) = addr := by
    apply inetAddr_dotted
    unfold inaddrNone at fits
    omega
  unfold parseUrl parseInetUrl
  have notUnix : ((sockNtop addr port).take 5).map Char.toLower ≠ "unix:".toList := by
    unfold sockNtop
    rw [begins]
    intro same
    have head : first.toLower = 'u' := (List.cons.inj same).1
    rw [toLower_digit digit] at head
    rw [head] at digit
    cases digit
  have notInet6 : (sockNtop addr port).head? ≠ some '[' := by
    unfold sockNtop
    rw [begins]
    intro same
    cases same
    cases digit
  rw [if_neg notUnix, if_neg notInet6, absent '/' (by decide) (by decide) (by decide),
    absent '?' (by decide) (by decide) (by decide), Bool.or_false, if_neg Bool.false_ne_true]
  have inRange : port ≤ maxInt := by
    unfold maxInt
    omega
  have portRead : atoi (sprintfNum port) = some port := by
    rw [sprintfNum_eq (by omega), atoi_toDigits, if_pos inRange]
  have hostRead : hostAddrs resolver (dotted addr) port =
      .ok [String.ofList (sockNtop addr port)] := by
    unfold hostAddrs
    rw [read, if_neg (by rw [begins]; exact Bool.false_ne_true), if_pos (Nat.ne_of_lt fits)]
  rw [show sockNtop addr port = dotted addr ++ ':' :: sprintfNum port from rfl,
    (takeWhile_dotted addr _).1, (takeWhile_dotted addr _).2]
  dsimp only
  rw [portRead]
  dsimp only
  rw [if_neg (by omega)]
  exact hostRead

end AutoBurst.Nginx

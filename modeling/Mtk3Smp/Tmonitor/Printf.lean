import Mtk3Smp.Lib.CFormat
import Mtk3Smp.Tstdlib.Bitop

/-!
# `tm_sprintf`

`libtm_printf.c`, with the configuration's `TM_OUTBUF_SZ` of 0. The format is a list of bytes
that ends where its NUL is, and a string argument the list of its bytes. `wid`, `prec`, `n`
and the length of the output are variables of type `H`: what is assigned to one of them is cut
to 16 bits by `toH`.
-/

namespace Mtk3Smp

namespace Printf

open CFormat (ch Arg)

abbrev UW := BitVec 32

/-- A value after its assignment to a variable of type `H`. -/
def toH (x : Int) : Int := Int.bmod x 65536

/-! ## Output -/

/-- `bufp` counts from the buffer of the caller, and so do the cells of `mem`. -/
structure OutPar where
  len : Int
  bufp : Int
  mem : Int → UB

/-- The copying loop of `out_buf`. -/
def store (mem : Int → UB) (bufp : Int) : List UB → Int → UB
  | [] => mem
  | x :: str => store (Function.update mem bufp x) (bufp + 1) str

def outBuf (str : List UB) (par : OutPar) : OutPar :=
  { len := toH (par.len + str.length)
    bufp := par.bufp + str.length
    mem := store par.mem par.bufp str }

/-- `while (--wid >= 0) (*ostr)(x, 1, par)` -/
def outWhile (x : UB) : Nat → Int → OutPar → Int × OutPar
  | 0, wid, par => (wid, par)
  | fuel + 1, wid, par =>
    if toH (wid - 1) ≥ 0 then outWhile x fuel (toH (wid - 1)) (outBuf [x] par)
    else (toH (wid - 1), par)

/-- An `H` has as many values as the loop can have rounds. -/
def H_VALUES : Nat := 65536

/-! ## Integers -/

/-- `digits` -/
def digits : List UB :=
  [0x30, 0x31, 0x32, 0x33, 0x34, 0x35, 0x36, 0x37, 0x38, 0x39, 0x61, 0x62, 0x63, 0x64, 0x65, 0x66,
    0x30, 0x31, 0x32, 0x33, 0x34, 0x35, 0x36, 0x37, 0x38, 0x39, 0x41, 0x42, 0x43, 0x44, 0x45, 0x46]

/-- The loop of `outint`, which writes in front of what is at `ep`. -/
def outintLoop (base caps : Nat) : Nat → List UB → Nat → List UB
  | 0, ep, _ => ep
  | fuel + 1, ep, val =>
    if val ≥ base then
      outintLoop base caps fuel (digits.getD (val % base + caps) 0 :: ep) (val / base)
    else digits.getD (val + caps) 0 :: ep

/-- A round takes a bit of `val` at least. -/
def outint (ep : List UB) (val : UW) (base : UB) : List UB :=
  outintLoop (base &&& 0x3f).toNat ((base &&& 0x40) >>> 2).toNat 33 ep val.toNat

/-! ## Reading a directive -/

abbrev F_LEFT : UB := 0x01
abbrev F_PLUS : UB := 0x02
abbrev F_SPACE : UB := 0x04
abbrev F_PREFIX : UB := 0x08
abbrev F_ZERO : UB := 0x10

abbrev MAX_DIGITS : Nat := 14

/-- The variables that a directive is read with. -/
structure Cursor where
  c : UB
  fmt : List UB
  ap : List Arg

namespace Cursor

/-- `c = *fmt++`. Behind the NUL the list stays empty: the only way on from there is
`fmt--`. -/
def next (k : Cursor) : Cursor :=
  match k.fmt with
  | [] => { k with c := 0 }
  | c :: fmt => { k with c := c, fmt := fmt }

/-- `va_arg` of an integer or a pointer that is not followed. -/
def vaWord (k : Cursor) : Option (UW × Cursor) :=
  match k.ap with
  | .word v :: ap => some (v, { k with ap := ap })
  | _ => none

def vaStr (k : Cursor) : Option (List UB × Cursor) :=
  match k.ap with
  | .str s :: ap => some (s, { k with ap := ap })
  | _ => none

end Cursor

def isDigit (c : UB) : Bool := ch '0' ≤ c && c ≤ ch '9'

/-- The loop that gets the flags; the byte it ends on is `c`. -/
def getFlags (ap : List Arg) : UB → List UB → UB × Cursor
  | flg, [] => (flg, { c := 0, fmt := [], ap := ap })
  | flg, c :: fmt =>
    if c = ch '-' then getFlags ap (flg ||| F_LEFT) fmt
    else if c = ch '+' then getFlags ap (flg ||| F_PLUS) fmt
    else if c = ch ' ' then getFlags ap (flg ||| F_SPACE) fmt
    else if c = ch '#' then getFlags ap (flg ||| F_PREFIX) fmt
    else if c = ch '0' then getFlags ap (flg ||| F_ZERO) fmt
    else (flg, { c := c, fmt := fmt, ap := ap })

/-- `for (; c >= '0' && c <= '9'; c = *fmt++) x = x * 10 + c - '0'` -/
def getDigits (ap : List Arg) (x : Int) (c : UB) : List UB → Int × Cursor
  | [] =>
    if isDigit c then (toH (x * 10 + c.toNat - 0x30), { c := 0, fmt := [], ap := ap })
    else (x, { c := c, fmt := [], ap := ap })
  | c' :: fmt =>
    if isDigit c then getDigits ap (toH (x * 10 + c.toNat - 0x30)) c' fmt
    else (x, { c := c, fmt := c' :: fmt, ap := ap })

/-- `flg`, `wid` and the cursor behind the field width. -/
def getWidth (flg : UB) (k : Cursor) : Option (UB × Int × Cursor) :=
  if k.c = ch '*' then
    k.vaWord.map fun (n, k) =>
      let wid := toH n.toInt
      if wid < 0 then (flg ||| F_LEFT, toH (-wid), k.next) else (flg, wid, k.next)
  else some (flg, getDigits k.ap 0 k.c k.fmt)

/-- `flg`, `prec` and the cursor behind the precision. -/
def getPrec (flg : UB) (k : Cursor) : Option (UB × Int × Cursor) :=
  if k.c = ch '.' then
    let k := k.next
    if k.c = ch '*' then
      k.vaWord.map fun (n, k) =>
        let prec := toH n.toInt
        (flg &&& ~~~F_ZERO, if prec < 0 then 0 else prec, k.next)
    else some (flg &&& ~~~F_ZERO, getDigits k.ap 0 k.c k.fmt)
  else some (flg, -1, k)

def getQual (k : Cursor) : UB × Cursor :=
  if k.c = ch 'h' ∨ k.c = ch 'l' then (k.c, k.next) else (0, k)

/-! ## Formatting an item -/

/-- What the conversions leave behind: the item string is what is between `cbs` and `cbe`. -/
structure Conversion where
  sign : UB
  base : UB
  wid : Int
  prec : Int
  cbs : List UB

/-- `v` of the integer conversions. -/
def intValue (c qual : UB) (v : UW) : UW :=
  if qual = ch 'l' then v
  else if qual = ch 'h' then
    if c = ch 'i' ∨ c = ch 'd' then (v.setWidth 16).signExtend 32 else (v.setWidth 16).setWidth 32
  else v

/-- `v`, `sign` and `wid` of `i` and `d`. -/
def signed (flg : UB) (wid : Int) (v : UW) : UW × UB × Int :=
  if v.toInt < 0 then (-v, ch '-', toH (wid - 1))
  else if flg &&& F_PLUS ≠ 0 then (v, ch '+', toH (wid - 1))
  else if flg &&& F_SPACE ≠ 0 then (v, ch ' ', toH (wid - 1))
  else (v, 0, wid)

/-- `base` and `wid` of `X`, `x` and `o`, which fall through to one another. -/
def prefixed (flg : UB) (wid : Int) (c : UB) (v : UW) : UB × Int :=
  let base : UB := 10
  let base := if c = ch 'X' then base + 0x40 else base
  let base := if c = ch 'X' ∨ c = ch 'x' then base + 8 else base
  let base := base - 2
  if flg &&& F_PREFIX ≠ 0 ∧ v ≠ 0 then
    (base ||| 0x80, toH (wid - if base = 8 then 1 else 2))
  else (base, wid)

/-- Nothing is output of 0 with the precision 0. -/
def itemString (v : UW) (prec : Int) (base : UB) : List UB :=
  if v = 0 ∧ prec = 0 then [] else outint [] v base

def convertInt (flg : UB) (wid prec : Int) (c qual : UB) (arg : UW) : Conversion :=
  let v := intValue c qual arg
  if c = ch 'i' ∨ c = ch 'd' then
    let (v, sign, wid) := signed flg wid v
    { sign := sign, base := 10, wid := wid, prec := prec, cbs := itemString v prec 10 }
  else if c = ch 'u' then
    { sign := 0, base := 10, wid := wid, prec := prec, cbs := itemString v prec 10 }
  else
    let (base, wid) := prefixed flg wid c v
    { sign := 0, base := base, wid := wid, prec := prec, cbs := itemString v prec base }

def convertPtr (wid prec : Int) (v : UW) : Conversion :=
  if v ≠ 0 then
    { sign := 0, base := 16 ||| 0x80, wid := toH (wid - 2), prec := prec
      cbs := outint [] v (16 ||| 0x80) }
  else { sign := 0, base := 10, wid := wid, prec := prec, cbs := outint [] v 10 }

/-- `while (--prec >= 0 && *cbe != '\0') cbe++`: `prec` and what is between `cbs` and `cbe`. -/
def takeString (prec : Int) : List UB → Int × List UB
  | [] => (toH (prec - 1), [])
  | x :: s =>
    if toH (prec - 1) ≥ 0 ∧ x ≠ 0 then
      ((takeString (toH (prec - 1)) s).1, x :: (takeString (toH (prec - 1)) s).2)
    else (toH (prec - 1), [])

def convertStr (wid prec : Int) (s : List UB) : Conversion :=
  if prec < 0 then
    { sign := 0, base := 10, wid := wid, prec := prec, cbs := s.takeWhile (· ≠ 0) }
  else
    { sign := 0, base := 10, wid := wid, prec := (takeString prec s).1
      cbs := (takeString prec s).2 }

def convertChr (wid : Int) (v : UW) : Conversion :=
  { sign := 0, base := 10, wid := wid, prec := 0, cbs := [v.setWidth 8] }

inductive Choice
  | item (cv : Conversion) (ap : List Arg)
  /-- `'\0'` -/
  | nul
  /-- output as fixed string -/
  | fixed

/-- The switch on `c`. -/
def formatItem (flg : UB) (wid prec : Int) (qual : UB) (k : Cursor) : Option Choice :=
  if k.c ∈ [ch 'i', ch 'd', ch 'u', ch 'X', ch 'x', ch 'o'] then
    k.vaWord.map fun (v, k) => .item (convertInt flg wid prec k.c qual v) k.ap
  else if k.c = ch 'p' then k.vaWord.map fun (v, k) => .item (convertPtr wid prec v) k.ap
  else if k.c = ch 's' then k.vaStr.map fun (s, k) => .item (convertStr wid prec s) k.ap
  else if k.c = ch 'c' then k.vaWord.map fun (v, k) => .item (convertChr wid v) k.ap
  else if k.c = 0 then some .nul
  else some .fixed

/-- `"0x"`, `"0X"` or `"0"` -/
def outPrefix (base : UB) (par : OutPar) : OutPar :=
  if base &&& 0x80 ≠ 0 then
    if base &&& 0x10 ≠ 0 then
      outBuf [if base &&& 0x40 ≠ 0 then ch 'X' else ch 'x'] (outBuf [ch '0'] par)
    else outBuf [ch '0'] par
  else par

def outSign (sign : UB) (par : OutPar) : OutPar :=
  if sign ≠ 0 then outBuf [sign] par else par

/-- From the item length on: `prec` is what the precision adds to the item, and `wid` what the
field does. -/
def outItem (flg : UB) (cv : Conversion) (par : OutPar) : OutPar :=
  let n := toH cv.cbs.length
  let prec := toH (cv.prec - n)
  let n := if prec > 0 then toH (n + prec) else n
  let wid := toH (cv.wid - n)
  let (wid, par) :=
    if flg &&& (F_LEFT ||| F_ZERO) = 0 then outWhile (ch ' ') H_VALUES wid par else (wid, par)
  let par := outPrefix cv.base (outSign cv.sign par)
  let (n, wid) :=
    if prec ≤ 0 ∧ flg &&& (F_LEFT ||| F_ZERO) = F_ZERO then (wid, 0) else (prec, wid)
  let par := outBuf cv.cbs (outWhile (ch '0') H_VALUES n par).2
  (outWhile (ch ' ') H_VALUES wid par).2

/-! ## The format -/

/-- `if (fms != NULL) (*ostr)(fms, …)`: `fixed` is what is between `fms` and `fmt`. -/
def outFixed (fixed : Option (List UB)) (par : OutPar) : OutPar :=
  match fixed with
  | none => par
  | some str => outBuf str par

/-- What a directive is read as: its flags, and what the switch makes of it. -/
def readDirective (fmt : List UB) (ap : List Arg) : Option (UB × Cursor × Choice) :=
  let (flg, k) := getFlags ap 0 fmt
  (getWidth flg k).bind fun (flg, wid, k) =>
    (getPrec flg k).bind fun (flg, prec, k) =>
      let (qual, k) := getQual k
      (formatItem flg wid prec qual k).map fun choice => (flg, k, choice)

/-- The loop of `tm_vsprintf`. `none` when an argument is not of the type that is asked for, or
when the given number of rounds is not enough. -/
def tmVsprintf : Nat → Option (List UB) → List UB → List Arg → OutPar → Option OutPar
  | 0, _, _, _, _ => none
  | _ + 1, fixed, [], _, par => some (outFixed fixed par)
  | fuel + 1, fixed, c :: fmt, ap, par =>
    if c ≠ ch '%' then tmVsprintf fuel (some (fixed.getD [] ++ [c])) fmt ap par
    else
      (readDirective fmt ap).bind fun (flg, k, choice) =>
        match choice with
        | .item cv ap => tmVsprintf fuel none k.fmt ap (outItem flg cv (outFixed fixed par))
        | .nul => tmVsprintf fuel none k.fmt k.ap (outFixed fixed par)
        | .fixed => tmVsprintf fuel (some [k.c]) k.fmt k.ap (outFixed fixed par)

/-- The buffer and the result; `mem` is the buffer before the call. A round takes a byte of the
format at least. -/
def tmSprintf (mem : Int → UB) (format : List UB) (ap : List Arg) : Option ((Int → UB) × Int) :=
  (tmVsprintf (format.length + 1) none format ap { len := 0, bufp := 0, mem := mem }).map
    fun par => (Function.update par.mem par.len 0, par.len)

end Printf

end Mtk3Smp

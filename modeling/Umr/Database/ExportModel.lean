import Umr.Database.Discover
import Umr.Database.RegFile
import Umr.Lib.Markers

/-!
# A discovered model as a static one

`umr_discover_asic_by_discovery_table` with `export_model` set writes a table of segment
offsets and a list of blocks, which `umr_database_read_asic` of `database/read_asic.c` reads
back.  The rows of the table are those of the matched entries, harvested or not; the blocks are
those of the entries that are not harvested.
-/

set_option autoImplicit false

namespace Umr.Database

open Umr.Lib Umr.Harness

/-- `struct umr_asic`. -/
structure AsicModel where
  asicname : List Char
  noBlocks : Int
  family : Int
  isApu : Int
  vgprGranularity : Int
  blocks : List IpBlock

def familyNv : Int := 4

def familyConfigure : Int := 8

/-! ## Discovery -/

def entryName (det : DiscoveryEntry) : List Char :=
  (CString.ofBuffer det.ipname.toList).bytes.map fun b => Char.ofNat b.toNat

/-- `struct export_data`; `soc15` says that the row was written. -/
structure ExportData where
  det : DiscoveryEntry
  nit : ScanItem
  soc15 : Bool

def ExportData.ipname (exp : ExportData) : List Char := entryName exp.det

def ExportData.path (exp : ExportData) : List Char := exp.nit.path ++ '/' :: exp.nit.fname

/-- What is matched, harvested or not. -/
def expData (db : List ScanItem) (desired : Option (List Char)) (table : List DiscoveryEntry) :
    List ExportData :=
  table.filterMap fun det => (matched db desired det).map fun nit => ⟨det, nit, false⟩

/-- A name without an instance gets the instance 0 if another name contains it. -/
def numberZero (names : List (List Char)) (x : Nat) : List (List Char) :=
  match names[x]? with
  | none => names
  | some ipname =>
      if strstr ipname "\x7b".toList then names
      else if (List.range names.length).any fun y =>
          y ≠ x ∧ (names[y]?.map fun other => strstr other ipname).getD false then
        names.set x ((ipname ++ "\x7b0\x7d".toList).take 254)
      else names

/-- The scan for a missing `{0}`. -/
def numberZeros (names : List (List Char)) : List (List Char) :=
  (List.range names.length).foldl numberZero names

def renamed (blocks : List IpBlock) : List IpBlock :=
  List.zipWith (fun block ipname => { block with ipname := ipname }) blocks
    (numberZeros (blocks.map IpBlock.ipname))

/-! ## The files -/

def offsetRow (det : DiscoveryEntry) : List Char :=
  '\t' :: det.segments.toList.flatMap fun segment => "0x".toList ++ printPadded 8 segment.toNat ++ [' ']

/-- No blank follows the last offset of a row of zeros. -/
def zeroRow : List Char :=
  '\t' :: ((List.replicate 31 "0x00000000 ".toList).flatten ++ "0x00000000".toList)

def ExportData.due (ipname : List Char) (exp : ExportData) : Bool :=
  !exp.soc15 && decide (exp.ipname = ipname)

def ExportData.mark (ipname : List Char) (exp : ExportData) : ExportData :=
  if exp.due ipname then { exp with soc15 := true } else exp

/-- The loop over `exp_data`, which ends at an entry without a name. -/
def soc15Text : List ExportData → List Char
  | [] => []
  | exp :: exps =>
      if exp.ipname = [] then []
      else if exp.soc15 then soc15Text exps
      else
        let due := (exp :: exps).filter (ExportData.due exp.ipname)
        exp.ipname ++ '\n' :: ((due.flatMap fun item => offsetRow item.det ++ ['\n']) ++
          ((List.replicate (32 - due.length) (zeroRow ++ ['\n'])).flatten ++
            soc15Text (exps.map (ExportData.mark exp.ipname))))
  termination_by exps => exps.length

def asicHeader (asicname : List Char) (noBlocks : Int) : List Char :=
  asicname ++ ' ' :: (asicname ++ (".soc15 ".toList ++ (printInt familyNv ++ ' ' ::
    (printInt noBlocks ++ " 2 0".toList))))

def asicLine (block : IpBlock) (exp : ExportData) : List Char :=
  block.ipname ++ ' ' :: (exp.ipname ++ ' ' ::
    (printInt block.discoverable.inst ++ ' ' :: exp.path))

/-- The list goes along with the blocks; at its end there is nothing to print. -/
def asicLines : List IpBlock → List ExportData → Option (List (List Char))
  | [], _ => some []
  | _ :: _, [] => none
  | block :: blocks, exp :: exps => do
      let lines ← asicLines blocks exps
      pure (asicLine block exp :: lines)

abbrev Written := List Char × List Char

/-- The names are printed into 128 characters. -/
def exportModel (asic : AsicModel) (exps : List ExportData) : Option (List Written) := do
  let lines ← asicLines asic.blocks exps
  pure [((asic.asicname ++ ".soc15".toList).take 127, soc15Text exps),
    ((asic.asicname ++ ".asic".toList).take 127,
      (asicHeader asic.asicname asic.noBlocks :: lines).flatMap fun line => line ++ ['\n'])]

def asicName (aname : List Char) : List Char :=
  match Lib.strstr ".asic".toList aname with
  | none => aname
  | some dasic => aname.take (aname.length - dasic.length)

/-- A block, unless there is none or the program stores behind an array. -/
def BlockRead.block : BlockRead → Option IpBlock
  | .ok (some block, _) => some block
  | _ => none

/-- The model and what is exported.  `fopen` finds the register files; `stale` is what the locals
of `read_ip_block` hold at first.  Blocks that are written behind the slots are not looked at. -/
def discoverAndExport (db : List ScanItem) (desired : Option (List Char))
    (fopen : List Char → Option (List Char)) (stale : DiscoveryEntry → Stale)
    (aname : List Char) (table : List DiscoveryEntry) (slots : Nat) :
    Option (AsicModel × List Written) := do
  let found := umrDiscoverAsicByDiscoveryTable db desired
    (fun det nit => readIpBlock (stale det) det nit (fopen (nit.path ++ '/' :: nit.fname)))
    table slots
  let blocks ← (List.range found.noBlocks.toNat).mapM fun x =>
    (found.block x).bind BlockRead.block
  let asicname := asicName aname
  let granularity := if asicname = "aldebaran".toList then 3 else 2
  let asic := ⟨asicname, found.noBlocks, familyConfigure, 0, granularity, renamed blocks⟩
  let files ← exportModel asic (expData db desired table)
  pure (asic, files)

/-! ## Reading back -/

structure AsicHeader where
  cmnname : List Char
  soc15fname : List Char
  family : Int
  numblocks : Int
  vgprGranularity : Int
  isApu : Int

def scanAsicHeader (linebuf : List Char) : Option AsicHeader := do
  let (cmnname, rest) ← scanWord linebuf
  let (soc15fname, rest) ← scanWord rest
  let (family, rest) ← scanInt rest
  let (numblocks, rest) ← scanInt rest
  let (vgprGranularity, rest) ← scanInt rest
  let (isApu, _) ← scanInt rest
  pure ⟨cmnname, soc15fname, family, numblocks, vgprGranularity, isApu⟩

structure IpHeader where
  ipcmnname : List Char
  ipsocname : List Char
  inst : Int
  regfile : List Char

def scanIpHeader (linebuf : List Char) : Option IpHeader := do
  let (ipcmnname, rest) ← scanWord linebuf
  let (ipsocname, rest) ← scanWord rest
  let (inst, rest) ← scanInt rest
  let (regfile, _) ← scanWord rest
  pure ⟨ipcmnname, ipsocname, inst, regfile⟩

inductive ModelFault where
  | reg (fault : RegFault)
  /-- the offset table is not read to its end -/
  | soc15
  deriving DecidableEq, Repr

/-- The row of an instance; a negative one is as far outside the table as any behind its end. -/
def instRow (inst : Int) : Nat := if 0 ≤ inst then inst.toNat else maxInst

def invalidAsicHeader (linebuf : List Char) : List Char :=
  "[ERROR]: Invalid ASIC header line [".toList ++ linebuf ++ "]\n".toList

def invalidIpHeader (linebuf : List Char) : List Char :=
  "[ERROR]: Invalid IP header line [".toList ++ linebuf ++ "]\n".toList

def readHeaderBlock (opened : List Char → Option (List Char)) (soc15 : Option (List Soc15))
    (stale : Stale) (header : IpHeader) : BlockRead :=
  umrDatabaseReadIpblock stale soc15 (opened header.regfile) header.regfile header.ipcmnname
    header.ipsocname (instRow header.inst)

abbrev BlocksRead := Except ModelFault (Option (List IpBlock) × List (List Char))

def readAsicBlocks (opened : List Char → Option (List Char)) (soc15 : Option (List Soc15))
    (stale : Nat → Stale) : Nat → Nat → List Char → List Char → BlocksRead
  | 0, _, _, _ => .ok (some [], [])
  | left + 1, x, linebuf, text =>
      let read := fgetsKeep 256 linebuf text
      match scanIpHeader read.1 with
      | none => .ok (none, [invalidIpHeader read.1])
      | some header =>
          match readHeaderBlock opened soc15 (stale x) header with
          | .error fault => .error (.reg fault)
          | .ok (none, errors) => .ok (none, errors)
          | .ok (some block, errors) => do
              let (blocks, more) ← readAsicBlocks opened soc15 stale left (x + 1) read.1 read.2
              pure (blocks.map (block :: ·), errors ++ more)

/-- The offset table, unless the file is for an ASIC without one. -/
def readAsicSoc15 (opened : List Char → Option (List Char)) (soc15fname : List Char) : Soc15Read :=
  umrDatabaseReadSoc15 soc15fname (opened soc15fname)

abbrev AsicRead := Except ModelFault (Option AsicModel × List (List Char))

def asicOf (header : AsicHeader) (errors : List (List Char)) (read : BlocksRead) : AsicRead := do
  let (blocks, more) ← read
  pure (blocks.map fun blocks =>
    ⟨header.cmnname, header.numblocks, header.family, header.isApu, header.vgprGranularity, blocks⟩,
    errors ++ more)

/-- `opened` is what `umr_database_open` finds, `stale` and `linebuf` what the locals hold. -/
def umrDatabaseReadAsic (opened : List Char → Option (List Char)) (stale : Nat → Stale)
    (linebuf filename : List Char) : AsicRead :=
  match opened filename with
  | none => .ok (none, [])
  | some contents =>
      let first := fgetsKeep 256 linebuf contents
      match scanAsicHeader first.1 with
      | none => .ok (none, [invalidAsicHeader first.1])
      | some header =>
          let blocks (soc15 : Option (List Soc15)) :=
            readAsicBlocks opened soc15 stale header.numblocks.toNat 0 first.1 first.2
          if header.soc15fname = "null".toList then asicOf header [] (blocks none)
          else
            match readAsicSoc15 opened header.soc15fname with
            | .notFound errors => .ok (none, errors)
            | .underflow => .error .soc15
            | .running => .error .soc15
            | .done entries errors => asicOf header errors (blocks (some entries))

end Umr.Database

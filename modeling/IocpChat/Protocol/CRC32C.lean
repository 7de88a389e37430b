import Mathlib.Logic.Function.Iterate

/-!
# The checksum of `protocol/CRC32C.cpp`

`compute` has two bodies.  The one over `kCrc32cTable` is what a compiler other
than MSVC always gets; the other uses the SSE4.2 instructions, modelled by the
bitwise Castagnoli step they are documented to perform.  Which one runs is a fact
about the build and the processor, so it is a parameter, `hw`, and everything
that computes a checksum carries it.

The table is copied from the source entry by entry.  It is not the table of the
Castagnoli polynomial, and nothing here assumes that it is.

## Main definitions

* `CRC32C.kCrc32cTable`, `CRC32C.computeSoftware` — the table-driven loop.
* `CRC32C.computeHardware` — eight bytes at a time, then one at a time.
* `CRC32C.computeFileCrc` — the checksum of a file, as the client and the server take it.
-/

namespace IocpChat

namespace CRC32C

/-- The lookup table, as the source has it. -/
def kCrc32cTable : Array UInt32 := #[
    0x00000000, 0xF26B8303, 0xE13B70F7, 0x1350F3F4, 0xC2A7E8EE, 0x30CC6BED,
    0x239C9819, 0xD1F71B1A, 0x85AE4EDD, 0x77C5CDDE, 0x64953E2A, 0x96FEBF29,
    0x4709A433, 0xB5622730, 0xA632D4C4, 0x545957C7, 0x0B5D9DAB, 0xF9361EA8,
    0xEA66ED5C, 0x180D6E5F, 0xC9FA7545, 0x3B91F646, 0x28C105B2, 0xDAAA86B1,
    0x8EF3D376, 0x7C985075, 0x6FC8A381, 0x9DA32082, 0x4C543B98, 0xBE3FB89B,
    0xAD6F4B6F, 0x5F04C86C, 0x17BB3B57, 0xE5D0B854, 0xF6804BA0, 0x04EBC8A3,
    0xD51CD3B9, 0x277750BA, 0x3427A34E, 0xC64C204D, 0x9215758A, 0x607EF689,
    0x732E057D, 0x8145867E, 0x50B29D64, 0xA2D91E67, 0xB189ED93, 0x43E26E90,
    0x1CE6A4FC, 0xEE8D27FF, 0xFDDDD40B, 0x0FB65708, 0xDE414C12, 0x2C2ACF11,
    0x3F7A3CE5, 0xCD11BFE6, 0x9948EA21, 0x6B236922, 0x78739AD6, 0x8A1819D5,
    0x5BEF02CF, 0xA98481CC, 0xBAD47238, 0x48BFF13B, 0x2F7676AE, 0xDD1DF5AD,
    0xCE4D0659, 0x3C26855A, 0xEDD19E40, 0x1FBA1D43, 0x0CEAEAB7, 0xFE8169B4,
    0xAAD83C73, 0x58B3BF70, 0x4BE34C84, 0xB988CF87, 0x687FD49D, 0x9A14579E,
    0x8944A46A, 0x7B2F2769, 0x242BED05, 0xD6406E06, 0xC5109DF2, 0x377B1EF1,
    0xE68C05EB, 0x14E786E8, 0x07B7751C, 0xF5DCF61F, 0xA185A3D8, 0x53EE20DB,
    0x40BED32F, 0xB2D5502C, 0x63224B36, 0x9149C835, 0x82193BC1, 0x7072B8C2,
    0x38CD4BF9, 0xCAA6C8FA, 0xD9F63B0E, 0x2B9DB80D, 0xFA6AA317, 0x08012014,
    0x1B51D3E0, 0xE93A50E3, 0xBD630524, 0x4F088627, 0x5C5875D3, 0xAE33F6D0,
    0x7FC4EDCA, 0x8DAF6EC9, 0x9EFF9D3D, 0x6C941E3E, 0x3394D452, 0xC1FF5751,
    0xD2AFA4A5, 0x20C427A6, 0xF1333CBC, 0x0358BFBF, 0x10084C4B, 0xE263CF48,
    0xB63A9A8F, 0x4451198C, 0x5701EA78, 0xA56A697B, 0x749D7261, 0x86F6F162,
    0x95A60296, 0x67CD8195, 0x5EECED5D, 0xAC876E5E, 0xBFD79DAA, 0x4DBC1EA9,
    0x9C4B05B3, 0x6E2086B0, 0x7D707544, 0x8F1BF647, 0xDB42A380, 0x29292083,
    0x3A79D377, 0xC8125074, 0x19E54B6E, 0xEB8EC86D, 0xF8DE3B99, 0x0AB5B89A,
    0x55B172F6, 0xA7DAF1F5, 0xB48A0201, 0x46E18102, 0x97169A18, 0x657D191B,
    0x762DEAFF, 0x844669FC, 0xD01F3C3B, 0x2274BF38, 0x31244CCC, 0xC34FCFCF,
    0x12B8D4D5, 0xE0D357D6, 0xF383A422, 0x01E82721, 0x4975D41A, 0xBB1E5719,
    0xA84EA4ED, 0x5A2527EE, 0x8BD23CF4, 0x79B9BFF7, 0x6AE94C03, 0x9882CF00,
    0xCCDB9AC7, 0x3EB019C4, 0x2DE0EA30, 0xDF8B6933, 0x0E7C7229, 0xFC17F12A,
    0xEF4702DE, 0x1D2C81DD, 0x42284BB1, 0xB043C8B2, 0xA3133B46, 0x5178B845,
    0x808FA35F, 0x72E4205C, 0x61B4D3A8, 0x93DF50AB, 0xC786056C, 0x35ED866F,
    0x26BD759B, 0xD4D6F698, 0x0521ED82, 0xF74A6E81, 0xE41A9D75, 0x16711E76,
    0x71B899E3, 0x83D31AE0, 0x9083E914, 0x62E86A17, 0xB31F710D, 0x4174F20E,
    0x522401FA, 0xA04F82F9, 0xF416D73E, 0x067D543D, 0x152DA7C9, 0xE74624CA,
    0x36B13FD0, 0xC4DABCD3, 0xD78A4F27, 0x25E1CC24, 0x7AE50648, 0x888E854B,
    0x9BDE76BF, 0x69B5F5BC, 0xB842EEA6, 0x4A296DA5, 0x59799E51, 0xAB121D52,
    0xFF4B4895, 0x0D20CB96, 0x1E703862, 0xEC1BBB61, 0x3DECA07B, 0xCF87237C,
    0xDCD7D088, 0x2EBC538B, 0x6613A0B0, 0x947823B3, 0x8728D047, 0x75435344,
    0xA4B4485E, 0x56DFCB5D, 0x458F38A9, 0xB7E4BBAA, 0xE3BDEE6D, 0x11D66D6E,
    0x02869E9A, 0xF0ED1D99, 0x211A0683, 0xD3718580, 0xC0217674, 0x324AF577,
    0x6D4E3F1B, 0x9F25BC18, 0x8C754FEC, 0x7E1ECCEF, 0xAFE9D7F5, 0x5D8254F6,
    0x4ED2A702, 0xBCB92401, 0xE8E071C6, 0x1A8BF2C5, 0x09DB0131, 0xFBB08232,
    0x2A479928, 0xD82C1A2B, 0xCB7CE9DF, 0x39176ADC]

/-- One turn of the table-driven loop. -/
def tableStep (crc : UInt32) (b : UInt8) : UInt32 :=
  kCrc32cTable.getD ((crc ^^^ b.toUInt32) &&& 0xFF).toNat 0 ^^^ (crc >>> 8)

/-- The portable body of `compute`. -/
def computeSoftware (data : List UInt8) (crc : UInt32) : UInt32 :=
  ~~~ data.foldl tableStep (~~~ crc)

/-- One bit of the reflected Castagnoli division. -/
def castagnoliBit (crc : UInt32) : UInt32 :=
  if crc &&& 1 = 1 then (crc >>> 1) ^^^ 0x82F63B78 else crc >>> 1

/-- The `crc32` instruction on one byte. -/
def mmCrc32U8 (crc : UInt32) (b : UInt8) : UInt32 :=
  Nat.iterate castagnoliBit 8 (crc ^^^ b.toUInt32)

/-- The `crc32` instruction on eight bytes, loaded little-endian: the byte at the
lowest address goes in first. -/
def mmCrc32U64 (crc : UInt32) (bs : List UInt8) : UInt32 := bs.foldl mmCrc32U8 crc

/-- The eight-bytes-at-a-time loop of `computeHardware`, then its remainder loop. -/
def hardwareLoop (crc : UInt32) : List UInt8 → UInt32
  | b₀ :: b₁ :: b₂ :: b₃ :: b₄ :: b₅ :: b₆ :: b₇ :: rest =>
    hardwareLoop (mmCrc32U64 crc [b₀, b₁, b₂, b₃, b₄, b₅, b₆, b₇]) rest
  | rest => rest.foldl mmCrc32U8 crc

/-- The SSE4.2 body of `compute`. -/
def computeHardware (data : List UInt8) (crc : UInt32) : UInt32 :=
  ~~~ hardwareLoop (~~~ crc) data

/-- The checksum of `data` continued from `crc`; `hw` is the answer of
`supportsHardwareAcceleration`. -/
def compute (hw : Bool) (data : List UInt8) (crc : UInt32) : UInt32 :=
  if hw then computeHardware data crc else computeSoftware data crc

/-- `buffer.size()`. -/
def crcBlock : ℕ := 1024 * 1024

/-- The loop of `computeFileCRC` over what is still to be read.  A `read` that gets fewer bytes
than it was asked for ends the file, so a file that is a multiple of the block is read once more,
for nothing. -/
def crcLoop (hw : Bool) (rest : List UInt8) (crc : UInt32) : UInt32 :=
  let buffer := rest.take crcBlock
  let crc := if 0 < buffer.length then compute hw buffer crc else crc
  if rest.length < crcBlock then crc else crcLoop hw (rest.drop crcBlock) crc
termination_by rest.length
decreasing_by
  rename_i hfull
  simp only [crcBlock, List.length_drop] at hfull ⊢
  omega

/-- `computeFileCRC`; without contents the file cannot be opened. -/
def computeFileCrc (hw : Bool) (contents : Option (List UInt8)) : UInt32 :=
  match contents with
  | none => 0
  | some contents => crcLoop hw contents 0

end CRC32C

end IocpChat

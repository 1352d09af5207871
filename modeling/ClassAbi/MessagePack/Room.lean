/-!
# Room for reading

A reader takes bytes into a buffer that it keeps. Bytes for which there is room are taken at once; more than that are taken
in portions, so that a false length cannot claim memory that the data does not justify. Where the portions end shows only
when the data is too short: it is then missing its next portion, or a part of one.
-/

namespace ClassAbi.MessagePack.Room

def portion : Nat := 1 <<< 20

def initial (n : Nat) : Nat := if n = 0 then 0 else if n < 64 then 64 else min n portion

/-- Whether data that ends after `k` of `n` bytes ends where a portion would begin. -/
def startsPortion (room n k : Nat) : Bool := k == 0 || (room < n && room < k && (k - room) % portion == 0)

def blocks : List Nat :=
  [8, 16, 24, 32, 48, 64, 80, 96, 112, 128, 144, 160, 176, 192, 208, 224, 240, 256, 288, 320, 352, 384, 416, 448, 480, 512,
    576, 640, 704, 768, 896, 1024, 1152, 1280, 1408, 1536, 1792, 2048, 2304, 2688, 3072, 3200, 3456, 4096, 4864, 5120, 5376,
    6144, 6528, 6784, 6912, 8192, 9472, 9728, 10240, 10880, 12288, 13568, 14336, 16384, 18432, 19072, 20480, 21760, 24576,
    27264, 28672, 32768]

/-- The size of the block of memory that holds `n` bytes. Large blocks are made of pages. -/
def block (n : Nat) : Nat :=
  if n ≤ 32760 then (blocks.find? (n ≤ ·)).getD n else (n + 8191) / 8192 * 8192

/-- A room enlarged by a quarter, and somewhat more if it is small. -/
def enlarged (room : Nat) : Nat := room + (room + 768) / 4

/-- The room after it had to hold `n` bytes: at least twice a small room, and at least a quarter more than a large one. -/
def grown (room n : Nat) : Nat :=
  if n ≤ room then room
  else if 2 * room < n then block n
  else if room < 256 then block (2 * room)
  else
    let quarters := [enlarged room, enlarged (enlarged room), enlarged (enlarged (enlarged room))]
    block ((quarters.find? (n ≤ ·)).getD (enlarged (enlarged (enlarged (enlarged room)))))

def after (room n : Nat) : Nat :=
  (List.range ((n - room + portion - 1) / portion)).foldl (fun r i => grown r (min n (room + (i + 1) * portion))) room

end ClassAbi.MessagePack.Room

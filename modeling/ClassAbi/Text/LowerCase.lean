import ClassAbi.Text.Utf8

/-!
# Lower case

The lower case of a text, character by character, as Unicode 15 gives it. A character has at most one lower-case
character here, and what has none stays as it is.
-/

namespace ClassAbi.Text

/-- Every second character from the first to the last, which is followed by its lower case. -/
def followedCapitals : List (Nat × Nat) :=
  [(256, 302), (306, 310), (313, 327), (330, 374), (377, 381), (386, 388), (391, 391), (395, 395), (401, 401),
    (408, 408), (416, 420), (423, 423), (428, 428), (431, 431), (435, 437), (440, 440), (444, 444), (453, 453),
    (456, 456), (459, 475), (478, 494), (498, 500), (504, 542), (546, 562), (571, 571), (577, 577), (582, 590),
    (880, 882), (886, 886), (984, 1006), (1015, 1015), (1018, 1018), (1120, 1152), (1162, 1214), (1217, 1229),
    (1232, 1326), (7680, 7828), (7840, 7934), (8579, 8579), (11360, 11360), (11367, 11371), (11378, 11378),
    (11381, 11381), (11392, 11490), (11499, 11501), (11506, 11506), (42560, 42604), (42624, 42650), (42786, 42798),
    (42802, 42862), (42873, 42875), (42878, 42886), (42891, 42891), (42896, 42898), (42902, 42920), (42932, 42946),
    (42951, 42953), (42960, 42960), (42966, 42968), (42997, 42997)]

/-- The characters from the first to the last, with the distance of their lower case. -/
def shiftedCapitals : List (Nat × Nat × Int) :=
  [(65, 90, 32), (192, 214, 32), (216, 222, 32), (393, 394, 205), (433, 434, 217), (904, 906, 37), (910, 911, 63),
    (913, 929, 32), (931, 939, 32), (1021, 1023, -130), (1024, 1039, 80), (1040, 1071, 32), (1329, 1366, 48),
    (4256, 4293, 7264), (5024, 5103, 38864), (5104, 5109, 8), (7312, 7354, -3008), (7357, 7359, -3008),
    (7944, 7951, -8), (7960, 7965, -8), (7976, 7983, -8), (7992, 7999, -8), (8008, 8013, -8), (8040, 8047, -8),
    (8072, 8079, -8), (8088, 8095, -8), (8104, 8111, -8), (8120, 8121, -8), (8122, 8123, -74), (8136, 8139, -86),
    (8152, 8153, -8), (8154, 8155, -100), (8168, 8169, -8), (8170, 8171, -112), (8184, 8185, -128), (8186, 8187, -126),
    (8544, 8559, 16), (9398, 9423, 26), (11264, 11311, 48), (11390, 11391, -10815), (65313, 65338, 32),
    (66560, 66599, 40), (66736, 66771, 40), (66928, 66938, 39), (66940, 66954, 39), (66956, 66962, 39),
    (66964, 66965, 39), (68736, 68786, 64), (71840, 71871, 32), (93760, 93791, 32), (125184, 125217, 34)]

def otherCapitals : List (Nat × Nat) :=
  [(304, 105), (376, 255), (385, 595), (390, 596), (398, 477), (399, 601), (400, 603), (403, 608), (404, 611),
    (406, 617), (407, 616), (412, 623), (413, 626), (415, 629), (422, 640), (425, 643), (430, 648), (439, 658),
    (452, 454), (455, 457), (458, 460), (497, 499), (502, 405), (503, 447), (544, 414), (570, 11365), (573, 410),
    (574, 11366), (579, 384), (580, 649), (581, 652), (895, 1011), (902, 940), (908, 972), (975, 983), (1012, 952),
    (1017, 1010), (1216, 1231), (4295, 11559), (4301, 11565), (7838, 223), (8025, 8017), (8027, 8019), (8029, 8021),
    (8031, 8023), (8124, 8115), (8140, 8131), (8172, 8165), (8188, 8179), (8486, 969), (8490, 107), (8491, 229),
    (8498, 8526), (11362, 619), (11363, 7549), (11364, 637), (11373, 593), (11374, 625), (11375, 592), (11376, 594),
    (42877, 7545), (42893, 613), (42922, 614), (42923, 604), (42924, 609), (42925, 620), (42926, 618), (42928, 670),
    (42929, 647), (42930, 669), (42931, 43859), (42948, 42900), (42949, 642), (42950, 7566)]

def lowerChar (c : Char) : Char :=
  let n := c.toNat
  if followedCapitals.any fun (first, last) => first ≤ n && n ≤ last && (n - first) % 2 == 0 then Char.ofNat (n + 1)
  else match shiftedCapitals.find? fun (first, last, _) => first ≤ n && n ≤ last with
    | some (_, _, shift) => Char.ofNat (n + shift).toNat
    | none => Char.ofNat ((otherCapitals.lookup n).getD n)

def lower (t : Text) : Text := t.chars.flatMap fun c => ofChar (lowerChar c)

end ClassAbi.Text

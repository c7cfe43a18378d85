import KeySmith.Main
import KeySmith.Proofs.BigEndian
import KeySmith.Proofs.Outcome
import KeySmith.Proofs.Ssh.Wire
import KeySmith.Proofs.Key
import KeySmith.Proofs.Ssh.PublicKey
import KeySmith.Proofs.Modular
import KeySmith.Proofs.Ssh.PrivateFields
import KeySmith.Proofs.Ssh.Container
import KeySmith.Proofs.Base64
import KeySmith.Proofs.Der.Element
import KeySmith.Proofs.Pem
import KeySmith.Proofs.Der.AlgorithmId
import KeySmith.Proofs.Der.Pkcs1
import KeySmith.Proofs.Der.Sec1
import KeySmith.Proofs.Der.Spki
import KeySmith.Proofs.Der.Pkcs8
import KeySmith.Proofs.KeyFile
import KeySmith.Proofs.Jwk
import KeySmith.Proofs.Halves
import KeySmith.Proofs.Ssh.AuthorizedLine
import KeySmith.Proofs.KeyLine
import KeySmith.Proofs.Json
import KeySmith.Proofs.Jwk.RoundTrip
import KeySmith.Proofs.Bytes
import KeySmith.Proofs.Aes.Block
import KeySmith.Proofs.Aes.Modes
import KeySmith.Proofs.Cipher.Hybrid
import KeySmith.Proofs.Cipher.Stream
import KeySmith.Proofs.Pratt
import KeySmith.Proofs.Curve.Primes
import KeySmith.Proofs.Curve.GroupLaw
import KeySmith.Proofs.Curve.Weierstrass
import KeySmith.Proofs.Curve.Order
import KeySmith.Proofs.Curve.X25519
import KeySmith.Proofs.Curve.Edwards25519
import KeySmith.Proofs.Curve.StoredPoint
import KeySmith.Proofs.Curve.OctetForm
import KeySmith.Proofs.Cipher.HybridOutcome
import KeySmith.Proofs.Cipher.Rsa
import KeySmith.Proofs.KeyClass
import KeySmith.Proofs.Der.Encrypted
import KeySmith.Proofs.ProtectedFile
import KeySmith.Proofs.PublicHalf
import KeySmith.Proofs.Strict.Pem
import KeySmith.Proofs.Strict.Key
import KeySmith.Proofs.Strict.Ssh
import KeySmith.Proofs.Strict.Cipher
import KeySmith.Proofs.FileSystem
import KeySmith.Proofs.Command.Program
import KeySmith.Proofs.NewKey
import KeySmith.Proofs.Command.NewPair
import KeySmith.Proofs.Command.PairFiles
import KeySmith.Proofs.Curve.GroupOrder
import KeySmith.Proofs.Cipher.HybridHeader
import KeySmith.Proofs.Ssh.LineFields
import KeySmith.Proofs.KeyList
import KeySmith.Proofs.Ssh.PrefixFree
import KeySmith.Proofs.Hex
import KeySmith.Proofs.Command.SharedKey
import KeySmith.Proofs.Base64.Canonical
import KeySmith.Proofs.Jwk.Renewal
import KeySmith.Proofs.Der.Wrapped
import KeySmith.Proofs.Pem.Layout
import KeySmith.Proofs.PublicBody
import KeySmith.Proofs.Cipher.Shared
import KeySmith.Proofs.Export
import KeySmith.Proofs.Settings
import KeySmith.Proofs.Ssh.Integer
import KeySmith.Proofs.Command.Passphrase
import KeySmith.Proofs.Command.ProtectedKey
import KeySmith.Proofs.RsaSize

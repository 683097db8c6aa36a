import TypeAtlas.Proofs.Config.Reports

namespace TypeAtlas

variable {d : Disk} {project path : Path} {document tool table : Toml.Entries}

end TypeAtlas
